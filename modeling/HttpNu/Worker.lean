import HttpNu.Library.Channel
import HttpNu.Response

/-! The thread that evaluates the handler closure for one request. -/

namespace HttpNu.Worker

open Text Library Response

variable (R : Rendering)

def isJsonlRecord : Value → Bool
  | .record val => (Record.get val "__html".toList).isNone
  | _ => false

/-- An item that is evaluated when it is asked for, with the special responses sent meanwhile. -/
structure Pull (α : Type) where
  specials : List Response
  item : α

/-- The values an iterator gives, and its end; `panics` when the `next` after them panics. -/
structure ValueIter where
  pulls : List (Pull Value)
  ending : List Response
  panics : Bool

def ValueIter.vals (iter : ValueIter) : List Value := iter.pulls.map Pull.item

inductive ReadEnd where
  | eof
  | shellError (error : ShellError)
  | otherError (text : Str)
  | panics

structure Reader where
  pulls : List (Pull Bytes)
  ending : List Response
  last : ReadEnd

inductive PipelineData where
  | empty
  | value (v : Value) (metadata : Option Metadata)
  | listStream (stream : ValueIter) (metadata : Option Metadata)
  | byteStream (reader : Option Reader) (metadata : Option Metadata)

inductive Outcome where
  | ok (output : PipelineData)
  | err (text : Str)
  | panic

/-- A run of the handler closure: the special responses it sends while it runs, and how it ends. -/
structure ClosureRun where
  specials : List Response
  outcome : Outcome

abbrev PipelineResult := Option Str × HttpResponseMeta × ResponseTransport

/-- What the thread holds and has done: both response channels with the owners of their senders, the
chunks sent on the channel of a stream body, the room its receiver leaves before it is dropped, and
the errors logged. -/
structure Thread where
  metaCh : Oneshot Response := .waiting
  bodyCh : Oneshot PipelineResult := .waiting
  metaTxOpt : Option Sender := some .mk
  bodyTxOpt : Option Sender := some .mk
  responseTx : Option Sender := none
  chunks : List Bytes := []
  room : Option Nat
  log : List Str := []

inductive Failure where
  | err (text : Str)
  | panic

namespace Thread

def logError (t : Thread) (error : Str) : Thread := { t with log := t.log ++ [error] }

def special (t : Thread) (response : Response) : Thread :=
  match t.responseTx with
  | some tx => { t with metaCh := t.metaCh.send tx response, responseTx := none }
  | none => t

def specials (t : Thread) (responses : List Response) : Thread := responses.foldl special t

def clearResponseTx (t : Thread) : Thread :=
  { t with metaCh := t.metaCh.drop t.responseTx, responseTx := none }

def sendBody (t : Thread) (tx : Sender) (result : PipelineResult) : Thread :=
  { t with bodyCh := t.bodyCh.send tx result }

def dropBody (t : Thread) (tx : Option Sender) : Thread := { t with bodyCh := t.bodyCh.drop tx }

def sendChunk (t : Thread) (bytes : Bytes) : Thread × Bool :=
  match t.room with
  | some 0 => (t, false)
  | some (n + 1) => ({ t with chunks := t.chunks ++ [bytes], room := some n }, true)
  | none => ({ t with chunks := t.chunks ++ [bytes] }, true)

end Thread

def metaContentType (metadata : Option Metadata) : Option Str := metadata.bind Metadata.contentType

def inferredContentType : PipelineData → Option Str
  | .value v metadata =>
    match metaContentType metadata, v with
    | none, .record val =>
      if (Record.get val "__html".toList).isSome then some "text/html; charset=utf-8".toList
      else some "application/json".toList
    | none, .list _ => some "application/json".toList
    | none, .binary _ => some "application/octet-stream".toList
    | ct, _ => ct
  | .listStream _ metadata => metaContentType metadata
  | _ => none

/-- The first value of a list stream decides the form of them all. -/
def useJsonl (vals : List Value) : Bool := vals.head?.any isJsonlRecord

def responseTuple (output : PipelineData) : Except Failure PipelineResult :=
  match output with
  | .empty => .ok (inferredContentType output, {}, .empty)
  | .value .nothing metadata =>
    .ok (inferredContentType output, extractHttpResponseMeta metadata, .empty)
  | .value (.error error) _ => .error (.err (R.formatCliError error))
  | .value value metadata =>
    match valueToBytes R value with
    | some bytes => .ok (inferredContentType output, extractHttpResponseMeta metadata, .full bytes)
    | none => .error .panic
  | .listStream stream metadata =>
    if stream.vals.isEmpty && stream.panics then .error .panic
    else if useJsonl stream.vals then
      .ok (some "application/x-ndjson".toList, extractHttpResponseMeta metadata, .stream)
    else .ok (inferredContentType output, extractHttpResponseMeta metadata, .stream)
  | .byteStream _ metadata =>
    .ok ((metaContentType metadata).or (some "application/octet-stream".toList),
      extractHttpResponseMeta metadata, .stream)

def PipelineData.metadata : PipelineData → Option Metadata
  | .empty => none
  | .value _ metadata => metadata
  | .listStream _ metadata => metadata
  | .byteStream _ metadata => metadata

lemma responseTuple_meta {output : PipelineData} {result : PipelineResult}
    (h : responseTuple R output = .ok result) :
    result.2.1 = extractHttpResponseMeta output.metadata := by
  cases output with
  | empty =>
    obtain rfl := Except.ok.inj h
    rfl
  | value v metadata =>
    cases v with
    | nothing =>
      obtain rfl := Except.ok.inj h
      rfl
    | error error => cases h
    | _ =>
      simp only [responseTuple] at h
      split at h
      · obtain rfl := Except.ok.inj h
        rfl
      · cases h
  | listStream stream metadata =>
    simp only [responseTuple] at h
    repeat' split at h
    · cases h
    all_goals
      obtain rfl := Except.ok.inj h
      rfl
  | byteStream reader metadata =>
    obtain rfl := Except.ok.inj h
    rfl

def streamBytes (useJsonl : Bool) (value : Value) : Option Bytes :=
  if useJsonl then (Response.valueToJson value).map (fun json => utf8 (jsonText R json ++ ['\n']))
  else valueToBytes R value

def asError : Value → Option ShellError
  | .error error => some error
  | _ => none

def sendValues (useJsonl panics : Bool) (ending : List Response) :
    List (Pull Value) → Thread → Thread × Option Failure
  | [], t => (t.specials ending, if panics then some .panic else none)
  | ⟨specials, value⟩ :: rest, t =>
    let t := t.specials specials
    match asError value, streamBytes R useJsonl value with
    | some error, _ => (t.logError (R.formatCliError error), none)
    | none, none => (t, some .panic)
    | none, some bytes =>
      match t.sendChunk bytes with
      | (t, true) => sendValues useJsonl panics ending rest t
      | (t, false) => (t, none)

def endReads (last : ReadEnd) (t : Thread) : Thread × Option Failure :=
  match last with
  | .eof => (t, none)
  | .shellError error => (t.logError (R.formatCliError error), none)
  | .otherError text => (t, some (.err text))
  | .panics => (t, some .panic)

def sendReads (last : ReadEnd) (ending : List Response) : List (Pull Bytes) → Thread → Thread × Option Failure
  | [], t => endReads R last (t.specials ending)
  | ⟨specials, bytes⟩ :: rest, t =>
    match (t.specials specials).sendChunk bytes with
    | (t, true) => sendReads last ending rest t
    | (t, false) => (t, none)

/-- The first `next` of a list stream comes before the tuple is sent. -/
def peek : PipelineData → Thread → Thread
  | .listStream stream _, t => t.specials (stream.pulls.head?.elim stream.ending Pull.specials)
  | _, t => t

def peeked : List (Pull Value) → List (Pull Value)
  | [] => []
  | pull :: rest => ⟨[], pull.item⟩ :: rest

def sendStream : PipelineData → Thread → Thread × Option Failure
  | .listStream stream _, t =>
    sendValues R (useJsonl stream.vals) stream.panics stream.ending (peeked stream.pulls) t
  | .byteStream (some reader) _, t => sendReads R reader.last reader.ending reader.pulls t
  | .byteStream none _, t => (t, some (.err "ByteStream has no reader".toList))
  | _, t => (t, none)

def respond (tx : Sender) (output : PipelineData) (t : Thread) : Thread × Option Failure :=
  let t := peek output t
  match responseTuple R output with
  | .ok tuple => sendStream R output (t.sendBody tx tuple)
  | .error failure => (t.dropBody (some tx), some failure)

def runSpecials (metaTx : Sender) (specials : List Response) (t : Thread) : Thread :=
  Thread.specials { t with responseTx := some metaTx } specials

/-- `inner` owns both senders: what it has not used is dropped when it returns or unwinds. -/
def inner (run : ClosureRun) (metaTx bodyTx : Sender) (t : Thread) : Thread × Option Failure :=
  let t := runSpecials metaTx run.specials t
  match run.outcome with
  | .panic => (t.dropBody (some bodyTx), some .panic)
  | .err text => (t.clearResponseTx.dropBody (some bodyTx), some (.err text))
  | .ok output => respond R bodyTx output t.clearResponseTx

def errMsg : Failure → Str
  | .err text => text
  | .panic => "panic: Any ".toList ++ braced " .. ".toList

def errorResult (err : Str) : PipelineResult :=
  (some "text/plain; charset=utf-8".toList, { status := some 500 },
    .full (utf8 ("Script error: ".toList ++ err)))

def fallback (err : Str) (t : Thread) : Thread :=
  let t := t.logError err
  let t := { t with metaCh := t.metaCh.drop t.metaTxOpt, metaTxOpt := none }
  match t.bodyTxOpt with
  | some tx => { t with bodyCh := t.bodyCh.send tx (errorResult err), bodyTxOpt := none }
  | none => t

/-- The thread's end drops the senders it still holds, its thread-local one among them. -/
def exit (t : Thread) : Thread :=
  { t with
    metaCh := (t.metaCh.drop t.metaTxOpt).drop t.responseTx
    bodyCh := t.bodyCh.drop t.bodyTxOpt
    metaTxOpt := none
    bodyTxOpt := none
    responseTx := none }

def evaluate (clonePanics : Bool) (run : ClosureRun) (t : Thread) : Thread × Option Failure :=
  if clonePanics then (t, some .panic)
  else
    match t.metaTxOpt, t.bodyTxOpt with
    | some metaTx, some bodyTx => inner R run metaTx bodyTx { t with metaTxOpt := none, bodyTxOpt := none }
    | _, _ => (t, some .panic)

def spawnEvalThread (clonePanics : Bool) (run : ClosureRun) (room : Option Nat) : Thread :=
  match evaluate R clonePanics run { room := room } with
  | (t, none) => exit t
  | (t, some failure) => exit (fallback (errMsg failure) t)

def start (room : Option Nat) : Thread := { metaTxOpt := none, bodyTxOpt := none, room := room }

def FailsBeforeTuple (run : ClosureRun) (room : Option Nat) (failure : Failure) : Prop :=
  (inner R run .mk .mk (start room)).2 = some failure ∧
    ∀ tuple, (inner R run .mk .mk (start room)).1.bodyCh ≠ .sent tuple

def Pull.quiet {α : Type} (pull : Pull α) : Pull α := ⟨[], pull.item⟩

def PipelineData.quiet : PipelineData → PipelineData
  | .listStream stream metadata => .listStream ⟨stream.pulls.map Pull.quiet, [], stream.panics⟩ metadata
  | .byteStream (some reader) metadata =>
    .byteStream (some ⟨reader.pulls.map Pull.quiet, [], reader.last⟩) metadata
  | output => output

def ClosureRun.quiet (run : ClosureRun) : ClosureRun :=
  match run.outcome with
  | .ok output => ⟨run.specials, .ok output.quiet⟩
  | _ => run

def firstSpecial (clonePanics : Bool) (run : ClosureRun) : Option Response :=
  if clonePanics then none else run.specials.head?

def sentTuple (clonePanics : Bool) (run : ClosureRun) : Option PipelineResult :=
  if clonePanics then some (errorResult (errMsg .panic))
  else
    match run.outcome with
    | .ok output => (responseTuple R output).toOption
    | _ => none

def Thread.ends (t : Thread) :
    Oneshot Response × Oneshot PipelineResult × Option Sender × Option Sender × Option Sender :=
  (t.metaCh, t.bodyCh, t.metaTxOpt, t.bodyTxOpt, t.responseTx)

lemma specials_none {t : Thread} (h : t.responseTx = none) (responses : List Response) :
    t.specials responses = t := by
  induction responses with
  | nil => rfl
  | cons response rest ih => rw [Thread.specials, List.foldl_cons, Thread.special, h, ← Thread.specials, ih]

lemma runSpecials_spec (specials : List Response) (room : Option Nat) :
    let t := runSpecials .mk specials (start room)
    t.metaTxOpt = none ∧ t.bodyTxOpt = none ∧ t.bodyCh = .waiting ∧
      t.metaCh.drop t.responseTx = specials.head?.elim .closed .sent := by
  cases specials with
  | nil => exact ⟨rfl, rfl, rfl, rfl⟩
  | cons response rest =>
    have hrest : runSpecials .mk (response :: rest) (start room) =
        { start room with metaCh := .sent response, responseTx := none } := specials_none rfl rest
    rw [hrest]
    exact ⟨rfl, rfl, rfl, rfl⟩

lemma ends_responseTx {t t' : Thread} (h : t'.ends = t.ends) : t'.responseTx = t.responseTx :=
  congrArg (fun ends => ends.2.2.2.2) h

lemma sendChunk_ends {t t' : Thread} {bytes : Bytes} {sent : Bool} (h : t.sendChunk bytes = (t', sent)) :
    t'.ends = t.ends := by
  simp only [Thread.sendChunk] at h
  split at h <;> obtain ⟨rfl, _⟩ := Prod.mk.inj h <;> rfl

lemma sendValues_spec (useJsonl panics : Bool) (ending : List Response) (pulls : List (Pull Value)) {t : Thread}
    (h : t.responseTx = none) :
    sendValues R useJsonl panics ending pulls t = sendValues R useJsonl panics [] (pulls.map Pull.quiet) t ∧
      (sendValues R useJsonl panics ending pulls t).1.ends = t.ends := by
  induction pulls generalizing t with
  | nil =>
    rw [sendValues, specials_none h]
    exact ⟨rfl, rfl⟩
  | cons pull rest ih =>
    obtain ⟨specials, value⟩ := pull
    simp only [List.map_cons, Pull.quiet, sendValues, specials_none h]
    cases asError value with
    | some error => exact ⟨rfl, rfl⟩
    | none =>
      cases streamBytes R useJsonl value with
      | none => exact ⟨rfl, rfl⟩
      | some bytes =>
        dsimp only
        cases hs : t.sendChunk bytes with
        | mk t' sent =>
          have hends := sendChunk_ends hs
          cases sent with
          | true =>
            obtain ⟨hquiet, hrest⟩ := ih (ends_responseTx hends ▸ h)
            exact ⟨hquiet, hrest.trans hends⟩
          | false => exact ⟨rfl, hends⟩

lemma sendReads_spec (last : ReadEnd) (ending : List Response) (pulls : List (Pull Bytes)) {t : Thread}
    (h : t.responseTx = none) :
    sendReads R last ending pulls t = sendReads R last [] (pulls.map Pull.quiet) t ∧
      (sendReads R last ending pulls t).1.ends = t.ends := by
  induction pulls generalizing t with
  | nil =>
    rw [sendReads, specials_none h]
    refine ⟨rfl, ?_⟩
    cases last <;> rfl
  | cons pull rest ih =>
    obtain ⟨specials, bytes⟩ := pull
    simp only [List.map_cons, Pull.quiet, sendReads, specials_none h]
    cases hs : t.sendChunk bytes with
    | mk t' sent =>
      have hends := sendChunk_ends hs
      cases sent with
      | true =>
        obtain ⟨hquiet, hrest⟩ := ih (ends_responseTx hends ▸ h)
        exact ⟨hquiet, hrest.trans hends⟩
      | false => exact ⟨rfl, hends⟩

lemma peeked_quiet (pulls : List (Pull Value)) :
    (peeked pulls).map Pull.quiet = peeked (pulls.map Pull.quiet) := by
  cases pulls <;> rfl

lemma vals_quiet (stream : ValueIter) :
    ValueIter.vals ⟨stream.pulls.map Pull.quiet, [], stream.panics⟩ = stream.vals := by
  rw [ValueIter.vals, ValueIter.vals, List.map_map]
  rfl

lemma sendStream_spec (output : PipelineData) {t : Thread} (h : t.responseTx = none) :
    sendStream R output t = sendStream R output.quiet t ∧ (sendStream R output t).1.ends = t.ends := by
  cases output with
  | empty => exact ⟨rfl, rfl⟩
  | value v metadata => exact ⟨rfl, rfl⟩
  | listStream stream metadata =>
    have hspec := sendValues_spec R (useJsonl stream.vals) stream.panics stream.ending (peeked stream.pulls) h
    rw [peeked_quiet] at hspec
    refine ⟨?_, hspec.2⟩
    rw [sendStream, hspec.1, PipelineData.quiet, sendStream, vals_quiet]
  | byteStream reader metadata =>
    cases reader with
    | none => exact ⟨rfl, rfl⟩
    | some reader => exact sendReads_spec R reader.last reader.ending reader.pulls h

lemma peek_none (output : PipelineData) {t : Thread} (h : t.responseTx = none) : peek output t = t := by
  cases output with
  | listStream stream metadata => exact specials_none h _
  | _ => rfl

lemma respond_ends (output : PipelineData) {t : Thread} (h : t.responseTx = none) (hbody : t.bodyCh = .waiting) :
    (respond R .mk output t).1.ends =
      (t.metaCh, (responseTuple R output).toOption.elim .closed .sent, t.metaTxOpt, t.bodyTxOpt, none) := by
  rw [respond, peek_none output h]
  cases responseTuple R output with
  | error failure => simp [Thread.ends, Thread.dropBody, hbody, h, Except.toOption]
  | ok tuple =>
    have hends := (sendStream_spec R output (t := t.sendBody .mk tuple) h).2
    apply hends.trans
    simp [Thread.ends, Thread.sendBody, hbody, h, Except.toOption]

lemma inner_spec (run : ClosureRun) (room : Option Nat) :
    let t := (inner R run .mk .mk (start room)).1
    t.metaTxOpt = none ∧ t.bodyTxOpt = none ∧
      t.metaCh.drop t.responseTx = (firstSpecial false run).elim .closed .sent ∧
      t.bodyCh = (sentTuple R false run).elim .closed .sent := by
  obtain ⟨specials, outcome⟩ := run
  obtain ⟨hmetaTx, hbodyTx, hbody, hmeta⟩ := runSpecials_spec specials room
  cases outcome with
  | panic => exact ⟨hmetaTx, hbodyTx, hmeta, by rw [inner, Thread.dropBody, hbody]; rfl⟩
  | err text =>
    exact ⟨hmetaTx, hbodyTx, hmeta, by rw [inner, Thread.dropBody, Thread.clearResponseTx, hbody]; rfl⟩
  | ok output =>
    generalize hcleared : (runSpecials .mk specials (start room)).clearResponseTx = t
    have hnone : t.responseTx = none := hcleared ▸ rfl
    have hinner : inner R ⟨specials, .ok output⟩ .mk .mk (start room) = respond R .mk output t := by
      rw [← hcleared]
      rfl
    have hclear : t.metaCh = specials.head?.elim .closed .sent ∧ t.bodyCh = .waiting ∧
        t.metaTxOpt = none ∧ t.bodyTxOpt = none := by
      rw [← hcleared]
      exact ⟨hmeta, hbody, hmetaTx, hbodyTx⟩
    have hends := respond_ends R output hnone hclear.2.1
    simp only [Thread.ends, Prod.mk.injEq] at hends
    obtain ⟨hmeta', hbody', hmetaTx', hbodyTx', hresponse⟩ := hends
    dsimp only
    rw [hinner, hmetaTx', hbodyTx', hmeta', hbody', hresponse]
    exact ⟨hclear.2.2.1, hclear.2.2.2, hclear.1, rfl⟩

lemma spawnEvalThread_eq (run : ClosureRun) (room : Option Nat) :
    spawnEvalThread R false run room =
      match inner R run .mk .mk (start room) with
      | (t, none) => exit t
      | (t, some failure) => exit (fallback (errMsg failure) t) := rfl

lemma spawnEvalThread_channels (clonePanics : Bool) (run : ClosureRun) (room : Option Nat) :
    (spawnEvalThread R clonePanics run room).metaCh = (firstSpecial clonePanics run).elim .closed .sent ∧
      (spawnEvalThread R clonePanics run room).bodyCh = (sentTuple R clonePanics run).elim .closed .sent := by
  cases clonePanics with
  | true => exact ⟨rfl, rfl⟩
  | false =>
    obtain ⟨hmetaTx, hbodyTx, hmeta, hbody⟩ := inner_spec R run room
    rw [spawnEvalThread_eq]
    cases hi : inner R run .mk .mk (start room) with
    | mk t result =>
      rw [hi] at hmetaTx hbodyTx hmeta hbody
      dsimp only at hmetaTx hbodyTx hmeta hbody
      cases result <;> simp [exit, fallback, Thread.logError, hmetaTx, hbodyTx, hmeta, hbody]

def evalFailure : Outcome → Option Failure
  | .ok output =>
    match responseTuple R output with
    | .ok _ => none
    | .error failure => some failure
  | .err text => some (.err text)
  | .panic => some .panic

lemma failsBeforeTuple_iff (run : ClosureRun) (room : Option Nat) (failure : Failure) :
    FailsBeforeTuple R run room failure ↔ evalFailure R run.outcome = some failure := by
  obtain ⟨_, _, _, hbody⟩ := inner_spec R run room
  rw [FailsBeforeTuple, hbody, sentTuple, if_neg (by simp)]
  obtain ⟨specials, outcome⟩ := run
  cases outcome with
  | panic => simp [inner, evalFailure]
  | err text => simp [inner, evalFailure]
  | ok output =>
    simp only [inner, respond, evalFailure]
    cases responseTuple R output with
    | error failure => simp [Except.toOption]
    | ok tuple => simp [Except.toOption]

lemma fallback_finds_none {run : ClosureRun} {room : Option Nat} {failure : Failure}
    (h : FailsBeforeTuple R run room failure) :
    (spawnEvalThread R false run room).log.getLast? = some (errMsg failure) ∧
      (spawnEvalThread R false run room).bodyCh = .closed := by
  obtain ⟨hf, hs⟩ := h
  obtain ⟨_, hbodyTx, _, hbody⟩ := inner_spec R run room
  have hclosed : (inner R run .mk .mk (start room)).1.bodyCh = .closed := by
    cases hsent : sentTuple R false run with
    | none =>
      rw [hbody, hsent]
      rfl
    | some tuple =>
      rw [hsent] at hbody
      exact absurd hbody (hs tuple)
  rw [spawnEvalThread_eq]
  cases hi : inner R run .mk .mk (start room) with
  | mk t result =>
    rw [hi] at hf hbodyTx hclosed
    obtain rfl : result = some failure := hf
    dsimp only at hbodyTx hclosed
    simp [exit, fallback, Thread.logError, hbodyTx, hclosed]

/-- The error is logged, and the reply that the fallback means to send is not sent. -/
theorem errorReply_lost {run : ClosureRun} {room : Option Nat} {failure : Failure}
    (h : FailsBeforeTuple R run room failure) :
    (spawnEvalThread R false run room).log.getLast? = some (errMsg failure) ∧
      (spawnEvalThread R false run room).bodyCh = .closed ∧
      (spawnEvalThread R false run room).bodyCh ≠ .sent (errorResult (errMsg failure)) := by
  obtain ⟨hlog, hclosed⟩ := fallback_finds_none R h
  exact ⟨hlog, hclosed, by simp [hclosed]⟩

theorem errorReply_lost_boom :
    FailsBeforeTuple .plain ⟨[], .err "boom".toList⟩ none (.err "boom".toList) ∧
      (spawnEvalThread .plain false ⟨[], .err "boom".toList⟩ none).bodyCh = .closed := by
  have h : FailsBeforeTuple .plain ⟨[], .err "boom".toList⟩ none (.err "boom".toList) :=
    (failsBeforeTuple_iff _ _ _ _).mpr rfl
  exact ⟨h, (errorReply_lost .plain h).2.1⟩

/-- An error value, whose text is logged and does not reach the client. -/
theorem errorValue_lost :
    (spawnEvalThread .plain false ⟨[], .ok (.value (.error (.other "boom".toList)) none)⟩ none).log =
        ["boom".toList] ∧
      (spawnEvalThread .plain false ⟨[], .ok (.value (.error (.other "boom".toList)) none)⟩ none).bodyCh ≠
        .sent (errorResult "boom".toList) := by
  decide

end HttpNu.Worker
