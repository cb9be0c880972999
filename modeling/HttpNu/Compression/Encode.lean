import HttpNu.Compression
import HttpNu.Library.Compressor

/-! `BrotliStream::encode`: the loop that drives the compressor through one operation. -/

namespace HttpNu.Compression

open Text Library

def outbufCap : Nat := 16 * 1024

variable (c : Compressor)

/-- The loop of `encode`. It is given the rest of the input from `in_offset` on and, for the same array,
`in_offset` again; it has no bound of its own, and is stuck when it panics or does not come to an end. -/
def encodeLoop (op : Op) (input : Bytes) : Nat → List Offer → Nat → Bytes → Emission × List Offer
  | 0, offers, _, _ => (.stuck, offers)
  | fuel + 1, offers, inOffset, outScratch =>
    let offer : Offer := ⟨op, input.length - inOffset, input.drop inOffset, inOffset, outbufCap⟩
    match c.compressStream offers offer with
    | .refused => (.failed, offer :: offers)
    | .panicked => (.stuck, offer :: offers)
    | .ok taken out =>
      if c.isDone (offer :: offers) op (input.length - (inOffset + taken)) then
        (.ok (outScratch ++ out), offer :: offers)
      else encodeLoop op input fuel (offer :: offers) (inOffset + taken) (outScratch ++ out)

def encode (offers : List Offer) (input : Bytes) (op : Op) : Emission × List Offer :=
  encodeLoop c op input (c.work offers op input.length + 1) offers 0 []

def offersAfter : List Call → List Offer
  | [] => []
  | call :: earlier => (encode c (offersAfter earlier) call.input call.op).2

/-- The encoder that `encode` makes of a compressor. -/
def driver : Encoder := ⟨fun calls call => (encode c (offersAfter c calls) call.input call.op).1⟩

variable {c} {decode : Bytes → Bytes} {offers offers' : List Offer} {input : Bytes} {o : Offer}
    {n : Nat} {out : Bytes}

structure Extends (c : Compressor) (offers offers' : List Offer) (input out : Bytes) : Prop where
  legal : c.Legal offers'
  written : c.written offers' = c.written offers ++ out
  taken : c.taken offers' = c.taken offers ++ input

lemma extends_single (hlegal : c.Legal offers) (hfollows : c.Follows offers o)
    (h : c.compressStream offers o = .ok n out) (hpiece : o.piece n = input) :
    Extends c offers (o :: offers) input out :=
  ⟨hlegal.cons hfollows h, Compressor.written_cons h, hpiece ▸ Compressor.taken_cons h⟩

lemma Extends.cons {rest later : Bytes} (h : c.compressStream offers o = .ok n out)
    (hrest : Extends c (o :: offers) offers' rest later) (hpiece : o.piece n ++ rest = input) :
    Extends c offers offers' input (out ++ later) where
  legal := hrest.legal
  written := by rw [hrest.written, Compressor.written_cons h, List.append_assoc]
  taken := by rw [hrest.taken, Compressor.taken_cons h, List.append_assoc, hpiece]

/-- A piece is only ever taken from the front of the chunk: behind it, the array and the offset into it
disagree. -/
lemma piece_front {inOffset : Nat} (op : Op) (hle : inOffset ≤ input.length) (hn : n ≤ input.length - inOffset)
    (hroom : n = 0 ∨ inOffset + n ≤ (input.drop inOffset).length)
    (hnext : inOffset + n = 0 ∨ inOffset + n = input.length) :
    (inOffset = 0 ∨ inOffset = input.length) ∧
      Offer.piece ⟨op, input.length - inOffset, input.drop inOffset, inOffset, outbufCap⟩ n ++
        input.drop (inOffset + n) = input.drop inOffset := by
  rw [List.length_drop] at hroom
  by_cases hzero : n = 0
  · subst hzero
    exact ⟨hnext, by simp [Offer.piece]⟩
  · obtain rfl : inOffset = 0 := by omega
    exact ⟨Or.inl rfl, by simp [Offer.piece, List.take_append_drop]⟩

/-- A chunk is taken in one piece, or the loop does not return. -/
lemma encodeLoop_process (hlaw : c.Lawful decode) (hlegal : c.Legal offers) (hrest : c.AtRest offers) (fuel : Nat)
    (inOffset : Nat) (scratch : Bytes) (hle : inOffset ≤ input.length) :
    (encodeLoop c .process input fuel offers inOffset scratch).1 = .stuck ∨
      ∃ out last earlier,
        encodeLoop c .process input fuel offers inOffset scratch = (.ok (scratch ++ out), last :: earlier) ∧
        Extends c offers (last :: earlier) (input.drop inOffset) out ∧ last.op = .process ∧
        (inOffset = 0 ∨ inOffset = input.length) := by
  induction fuel generalizing offers inOffset scratch with
  | zero => exact Or.inl rfl
  | succ fuel ih =>
    have hfollows := hrest ⟨.process, input.length - inOffset, input.drop inOffset, inOffset, outbufCap⟩
      (Or.inl rfl)
    simp only [encodeLoop]
    rcases hlaw.answer hlegal hfollows with hpanic | ⟨n, out, hok⟩
    · simp only [hpanic]
      exact Or.inl trivial
    · obtain ⟨hn, hroom⟩ := hlaw.takes _ _ _ _ hok
      have hn : n ≤ input.length - inOffset := hn
      simp only [hok]
      split
      · rename_i hdone
        have hend : inOffset + n = input.length := by
          simp only [Compressor.isDone, Bool.and_eq_true, decide_eq_true_eq] at hdone
          omega
        obtain ⟨hfront, hpiece⟩ := piece_front .process hle hn hroom (Or.inr hend)
        rw [hend, List.drop_length, List.append_nil] at hpiece
        exact Or.inr ⟨out, _, _, rfl, extends_single hlegal hfollows hok hpiece, rfl, hfront⟩
      · rcases ih (hlegal.cons hfollows hok) (Compressor.atRest_process rfl) (inOffset + n) (scratch ++ out)
            (by omega) with hstuck | ⟨later, last, earlier, hrun, hextends, hlast, hnext⟩
        · exact Or.inl hstuck
        · obtain ⟨hfront, hpiece⟩ := piece_front .process hle hn hroom hnext
          exact Or.inr ⟨out ++ later, last, earlier, by rw [hrun, List.append_assoc],
            hextends.cons hok hpiece, hlast,
            hfront⟩

lemma encodeLoop_settle (hlaw : c.Lawful decode) {op : Op} (hop : op ≠ .process) (hlegal : c.Legal offers)
    (hfollows : c.Follows offers ⟨op, 0, [], 0, outbufCap⟩) {fuel : Nat} (hfuel : c.work offers op 0 < fuel)
    (scratch : Bytes) :
    ∃ out last earlier, encodeLoop c op [] fuel offers 0 scratch = (.ok (scratch ++ out), last :: earlier) ∧
      Extends c offers (last :: earlier) [] out ∧ last.op = op ∧ c.isDone (last :: earlier) op 0 = true := by
  induction fuel generalizing offers scratch with
  | zero => exact absurd hfuel (Nat.not_lt_zero _)
  | succ fuel ih =>
    obtain ⟨n, out, hok⟩ := hlaw.answer_proper hlegal hfollows (Or.inl rfl)
    obtain rfl : n = 0 := Nat.le_zero.mp (hlaw.takes _ _ _ _ hok).1
    have hcall : c.compressStream offers ⟨op, ([] : Bytes).length - 0, ([] : Bytes).drop 0, 0, outbufCap⟩ =
      .ok 0 out := hok
    simp only [encodeLoop, hcall]
    split
    · rename_i hdone
      exact ⟨out, _, _, rfl, extends_single hlegal hfollows hok rfl, rfl, hdone⟩
    · rename_i hdone
      have hdone : c.isDone (⟨op, 0, [], 0, outbufCap⟩ :: offers) op 0 = false := Bool.eq_false_iff.mpr hdone
      have hnext : c.Follows (⟨op, 0, [], 0, outbufCap⟩ :: offers) ⟨op, 0, [], 0, outbufCap⟩ := by
        cases op with
        | process => exact absurd rfl hop
        | flush => exact ⟨Or.inr rfl, fun _ => rfl⟩
        | finish => exact ⟨Or.inr rfl, hdone, rfl⟩
      have hless := hlaw.progress _ _ _ _ hlegal hfollows (Or.inl rfl) (show 0 < outbufCap by decide) hok hdone
      obtain ⟨later, last, earlier, hrun, hextends, hlast, hsettled⟩ :=
        ih (hlegal.cons hfollows hok) hnext (Nat.lt_of_lt_of_le hless (Nat.lt_succ_iff.mp hfuel)) (scratch ++ out)
      exact ⟨out ++ later, last, earlier, by rw [← List.append_assoc]; exact hrun, hextends.cons hok rfl,
        hlast, hsettled⟩

/-- A chunk of which the first call takes some and leaves some is never encoded. -/
theorem encode_partial (hlaw : c.Lawful decode) (hlegal : c.Legal offers) (hrest : c.AtRest offers)
    (hok : c.compressStream offers ⟨.process, input.length, input, 0, outbufCap⟩ = .ok n out) (hpos : 0 < n)
    (hleft : n < input.length) : (encode c offers input .process).1 = .stuck := by
  have hfollows := hrest ⟨.process, input.length, input, 0, outbufCap⟩ (Or.inl rfl)
  have hcall : c.compressStream offers ⟨.process, input.length - 0, input.drop 0, 0, outbufCap⟩ = .ok n out := hok
  have hdone : c.isDone (⟨.process, input.length - 0, input.drop 0, 0, outbufCap⟩ :: offers) .process
      (input.length - (0 + n)) = false := by
    simp only [Compressor.isDone, Bool.and_eq_false_iff, decide_eq_false_iff_not]
    exact Or.inl (by omega)
  simp only [encode, encodeLoop, hcall, hdone, Bool.false_eq_true, if_false]
  rcases encodeLoop_process hlaw (hlegal.cons hfollows hok) (Compressor.atRest_process rfl)
      (c.work offers .process input.length) (0 + n) ([] ++ out) (show 0 + n ≤ input.length by omega) with
    hstuck | ⟨_, _, _, _, _, _, hfront⟩
  · exact hstuck
  · omega

lemma encodeLoop_returns (hlaw : c.Lawful decode) (hwhole : c.TakesWhole) (hlegal : c.Legal offers)
    (hrest : c.AtRest offers) {fuel inOffset : Nat} (scratch : Bytes)
    (hfuel : c.work offers .process (input.length - inOffset) < fuel)
    (hfront : inOffset = 0 ∨ inOffset = input.length) :
    (encodeLoop c .process input fuel offers inOffset scratch).1 ≠ .stuck := by
  induction fuel generalizing offers inOffset scratch with
  | zero => exact absurd hfuel (Nat.not_lt_zero _)
  | succ fuel ih =>
    have hfollows := hrest ⟨.process, input.length - inOffset, input.drop inOffset, inOffset, outbufCap⟩
      (Or.inl rfl)
    have hproper : Offer.Proper ⟨.process, input.length - inOffset, input.drop inOffset, inOffset, outbufCap⟩ := by
      rcases hfront with rfl | rfl
      · exact Or.inr (by simp)
      · exact Or.inl (Nat.sub_self _)
    obtain ⟨n, out, hok⟩ := hlaw.answer_proper hlegal hfollows hproper
    have hn : n = input.length - inOffset := hwhole _ _ _ _ hlegal hfollows hproper hok
    have hend : inOffset + n = input.length := by omega
    simp only [encodeLoop, hok]
    split
    · exact nofun
    · rename_i hdone
      have hless := hlaw.progress _ _ _ _ hlegal hfollows hproper (show 0 < outbufCap by decide) hok
        (by rw [Nat.sub_sub]; exact Bool.eq_false_iff.mpr hdone)
      rw [Nat.sub_sub] at hless
      exact ih (hlegal.cons hfollows hok) (Compressor.atRest_process rfl) (scratch ++ out)
        (Nat.lt_of_lt_of_le hless (Nat.lt_succ_iff.mp hfuel)) (Or.inr hend)

structure Refines (c : Compressor) (calls : List Call) : Prop where
  legal : c.Legal (offersAfter c calls)
  written : c.written (offersAfter c calls) = (driver c).output calls
  taken : c.taken (offersAfter c calls) = fed calls
  last : ∀ call ∈ calls.head?, ∃ last earlier, offersAfter c calls = last :: earlier ∧ last.op = call.op ∧
    (call.op ≠ .process → c.isDone (last :: earlier) call.op 0 = true)

lemma refines_nil : Refines c [] := ⟨trivial, rfl, rfl, nofun⟩

lemma Refines.atRest {calls : List Call} (h : Refines c calls) (hu : Unfinished calls) :
    c.AtRest (offersAfter c calls) := by
  cases calls with
  | nil => exact Compressor.atRest_nil
  | cons call calls =>
    obtain ⟨last, earlier, hoffers, hop, hdone⟩ := h.last call rfl
    rw [hoffers]
    cases hcall : call.op with
    | process => exact Compressor.atRest_process (hop.trans hcall)
    | flush =>
      refine Compressor.atRest_flushed (hop.trans hcall) ?_
      simpa [hcall, Compressor.isDone] using hdone
    | finish => exact absurd hcall (unfinished_cons.mp hu).1

lemma Refines.settled {calls : List Call} (h : Refines c calls) (hs : Settled calls) :
    c.Settled (offersAfter c calls) := by
  cases calls with
  | nil => trivial
  | cons call calls =>
    obtain ⟨last, earlier, hoffers, hop, hdone⟩ := h.last call rfl
    rw [hoffers, Compressor.Settled, hop]
    exact ⟨hs, hdone hs⟩

lemma Refines.cons {calls : List Call} {call : Call} (h : Refines c calls) {last : Offer} {earlier : List Offer}
    (hrun : encode c (offersAfter c calls) call.input call.op = (.ok out, last :: earlier))
    (hextends : Extends c (offersAfter c calls) (last :: earlier) call.input out) (hop : last.op = call.op)
    (hdone : call.op ≠ .process → c.isDone (last :: earlier) call.op 0 = true) :
    (driver c).emit calls call = .ok out ∧ Refines c (call :: calls) := by
  have hoffers : offersAfter c (call :: calls) = last :: earlier := by rw [offersAfter, hrun]
  have hemit : (driver c).emit calls call = .ok out := by simp only [driver, hrun]
  refine ⟨hemit, hoffers ▸ hextends.legal, ?_, ?_, ?_⟩
  · rw [hoffers, hextends.written, h.written, Encoder.output_cons _ hemit]
  · rw [hoffers, hextends.taken, h.taken, fed]
  · rintro _ ⟨⟩
    exact ⟨last, earlier, hoffers, hop, hdone⟩

lemma Refines.call (hlaw : c.Lawful decode) {calls : List Call} (h : Refines c calls) (hu : Unfinished calls)
    {call : Call} (hplain : call.Plain) :
    (driver c).emit calls call = .stuck ∨
      ∃ out, (driver c).emit calls call = .ok out ∧ Refines c (call :: calls) := by
  obtain ⟨op, input⟩ := call
  have hrest := h.atRest hu
  by_cases hop : op = .process
  · subst hop
    rcases encodeLoop_process hlaw h.legal hrest (c.work (offersAfter c calls) .process input.length + 1) 0 []
        (Nat.zero_le _) with hstuck | ⟨out, last, earlier, hrun, hextends, hlast, _⟩
    · exact Or.inl hstuck
    · exact Or.inr ⟨out, h.cons hrun hextends hlast (fun hne => absurd rfl hne)⟩
  · obtain rfl : input = [] := hplain.resolve_left hop
    obtain ⟨out, last, earlier, hrun, hextends, hlast, hdone⟩ :=
      encodeLoop_settle hlaw hop h.legal (hrest _ (Or.inr rfl)) (Nat.lt_succ_self _) []
    exact Or.inr ⟨out, h.cons hrun hextends hlast (fun _ => hlast ▸ hdone)⟩

lemma refines_made (hlaw : c.Lawful decode) {calls : List Call} (hmade : (driver c).Made calls)
    (hu : Unfinished calls.tail) : Refines c calls := by
  induction calls with
  | nil => exact refines_nil
  | cons call calls ih =>
    obtain ⟨hcalls, hplain, out, hemit⟩ := hmade
    have h := ih hcalls (fun c hc => hu c (List.mem_of_mem_tail hc))
    rcases h.call hlaw hu hplain with hstuck | ⟨_, _, hnext⟩
    · rw [hemit] at hstuck
      cases hstuck
    · exact hnext

theorem driver_honest (hlaw : c.Lawful decode) : (driver c).Honest decode where
  never_fails calls call hmade hu hplain hfailed := by
    have h := refines_made hlaw hmade (fun c hc => hu c (List.mem_of_mem_tail hc))
    rcases h.call hlaw hu hplain with hemit | ⟨out, hemit, _⟩ <;> rw [hfailed] at hemit <;> cases hemit
  decode_settled calls hmade hu hs := by
    have h := refines_made hlaw hmade hu
    rw [← h.written, hlaw.decode_settled _ h.legal (h.settled hs), h.taken]

/-- And where no chunk is left for a second call, every call of it returns. -/
theorem driver_lawful (hlaw : c.Lawful decode) (hwhole : c.TakesWhole) : (driver c).Lawful decode where
  toHonest := driver_honest hlaw
  returns calls call hmade hu hplain := by
    obtain ⟨op, input⟩ := call
    have h := refines_made hlaw hmade (fun c hc => hu c (List.mem_of_mem_tail hc))
    have hrest := h.atRest hu
    by_cases hop : op = .process
    · subst hop
      exact encodeLoop_returns hlaw hwhole h.legal hrest [] (Nat.lt_succ_self _) (Or.inl rfl)
    · obtain rfl : input = [] := hplain.resolve_left hop
      obtain ⟨out, last, earlier, hrun, _⟩ :=
        encodeLoop_settle hlaw hop h.legal (hrest _ (Or.inr rfl)) (Nat.lt_succ_self _) []
      have hemit : (driver c).emit calls ⟨op, []⟩ = .ok ([] ++ out) := congrArg Prod.fst hrun
      rw [hemit]
      exact nofun

end HttpNu.Compression
