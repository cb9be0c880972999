import HttpNu.Logging.Events
import Mathlib.Data.List.AList

/-! The log for people to read: the list of requests in flight under the lines that stay. -/

namespace HttpNu.Logging.Human

open Text

/-- `&s[..n]` and `&s[n..]`, which panic beyond the end and inside a character. -/
def splitAtByte : Nat → Str → Option (Str × Str)
  | 0, s => some ([], s)
  | _ + 1, [] => none
  | n + 1, c :: s =>
    if c.utf8Size ≤ n + 1 then (splitAtByte (n + 1 - c.utf8Size) s).map (fun (w, r) => (c :: w, r)) else none

def truncateMiddle (s : Str) (maxLen : Nat) : Option Str :=
  if (utf8 s).length ≤ maxLen then some s
  else do
    let keep := (maxLen - 3) / 2
    let (head, _) ← splitAtByte keep s
    let (_, tail) ← splitAtByte ((utf8 s).length - keep) s
    return head ++ "...".toList ++ tail

def CharBoundary (n : Nat) (s : Str) : Prop := ∃ w, w <+: s ∧ (utf8 w).length = n

/-- The two bytes at which a path of over 40 bytes is cut begin characters. -/
def Cuttable (path : Str) : Prop :=
  (utf8 path).length ≤ 40 ∨ CharBoundary 18 path ∧ CharBoundary ((utf8 path).length - 18) path

structure RequestState where
  method : Str
  path : Str
  trustedIp : Option Str
  startTime : Nat
  status : Option UInt16
  latencyMs : Option Nat

/-- What the clocks and the rate limiter say while one event is handled. -/
structure Moment where
  instant : Nat
  timestamp : Str
  date : Str
  elapsed : Nat → Str
  tryConsume : Bool

def alignRight (n : Nat) (s : Str) : Str := List.replicate (n - s.length) ' ' ++ s

def alignLeft (n : Nat) (s : Str) : Str := s ++ List.replicate (n - s.length) ' '

def digits (n : Nat) : Str := Nat.toDigits 10 n

def lineStart (now : Moment) (state : RequestState) (path : Str) : Str :=
  now.timestamp ++ " ".toList ++ alignRight 15 (state.trustedIp.getD "-".toList) ++ " ".toList ++
    alignLeft 6 state.method ++ " ".toList ++ alignLeft 40 path ++ " ".toList

def formatActiveLine (now : Moment) (state : RequestState) : Option Str := do
  let path ← truncateMiddle state.path 40
  let elapsed := alignRight 6 (now.elapsed state.startTime) ++ "s".toList
  match state.status, state.latencyMs with
  | some status, some latency =>
    return lineStart now state path ++ digits status.toNat ++ " ".toList ++ alignRight 6 (digits latency) ++
      "ms ".toList ++ elapsed
  | _, _ => return lineStart now state path ++ "... ".toList ++ elapsed

def formatCompleteLine (now : Moment) (state : RequestState) (durationMs bytes : Nat) : Option Str := do
  let path ← truncateMiddle state.path 40
  return lineStart now state path ++ digits (state.status.getD 0).toNat ++ " ".toList ++
    alignRight 6 (digits (state.latencyMs.getD 0)) ++ "ms ".toList ++ alignRight 6 (digits durationMs) ++
    "ms ".toList ++ alignRight 8 (digits bytes) ++ "b".toList

/-- What a printed line tells; only its text is shown. -/
inductive Mark where
  | plain
  | skips (count : Nat)
  | active (id : Scru128Id)
  | completes (id : Scru128Id)
  deriving DecidableEq

inductive Output where
  | line (mark : Mark) (text : Str)
  | error (text : Str)
  | cleared (lines : Nat)

structure ActiveZone where
  out : List Output
  lineCount : Nat

abbrev Requests := AList (fun _ : Scru128Id => RequestState)

namespace ActiveZone

def println (zone : ActiveZone) (mark : Mark) (text : Str) : ActiveZone :=
  { zone with out := zone.out ++ [.line mark text] }

def eprintln (zone : ActiveZone) (text : Str) : ActiveZone := { zone with out := zone.out ++ [.error text] }

/-- The line count is cast to a `u16`. -/
def clear (zone : ActiveZone) : ActiveZone :=
  if 0 < zone.lineCount then ⟨zone.out ++ [.cleared (zone.lineCount % 2 ^ 16)], 0⟩ else zone

def printPermanent (zone : ActiveZone) (mark : Mark) (text : Str) : ActiveZone := zone.clear.println mark text

/-- The lines of the requests; `false` is a panic, with those before it printed. -/
def drawActive (now : Moment) (requests : Requests) : List Scru128Id → ActiveZone → ActiveZone × Bool
  | [], zone => (zone, true)
  | id :: ids, zone =>
    match requests.lookup id with
    | none => drawActive now requests ids zone
    | some state =>
      match formatActiveLine now state with
      | none => (zone, false)
      | some line =>
        drawActive now requests ids { zone.println (.active id) line with lineCount := zone.lineCount + 1 }

def redraw (zone : ActiveZone) (now : Moment) (activeIds : List Scru128Id) (requests : Requests) :
    ActiveZone × Bool :=
  let zone := { zone with lineCount := 0 }
  if activeIds = [] then (zone, true)
  else
    drawActive now requests activeIds
      { zone.println .plain "· · ·  ✈ in flight  · · ·".toList with lineCount := 1 }

end ActiveZone

inductive Phase where
  | running
  | stopped
  | panicked
  deriving DecidableEq

structure State where
  phase : Phase
  zone : ActiveZone
  requests : Requests
  activeIds : List Scru128Id
  skipped : Nat
  lagged : Nat

def init : State := ⟨.running, ⟨[], 0⟩, ∅, [], 0, 0⟩

namespace State

def clear (s : State) : State := { s with zone := s.zone.clear }

def println (s : State) (mark : Mark) (text : Str) : State := { s with zone := s.zone.println mark text }

def printPermanent (s : State) (mark : Mark) (text : Str) : State :=
  { s with zone := s.zone.printPermanent mark text }

def redraw (s : State) (now : Moment) : State :=
  match s.zone.redraw now s.activeIds s.requests with
  | (zone, true) => { s with zone := zone }
  | (zone, false) => { s with zone := zone, phase := .panicked }

def skipSummary (count : Nat) : Str := "... skipped ".toList ++ digits count ++ " requests".toList

end State

def httpOpts (options : StartupOptions) : List Str :=
  (if options.watch then ["watch".toList] else []) ++ (options.tls.map ("tls:".toList ++ ·)).toList

def xsOpts (options : StartupOptions) : List Str :=
  options.store.toList ++ (options.topic.map ("topic:".toList ++ ·)).toList ++ options.expose.toList ++
    (if options.services then ["services".toList] else [])

def versionsText (b : Build) (options : StartupOptions) : Str :=
  " · ".toList.intercalate
    (["nu ".toList ++ b.nuVersion] ++
      (if b.crossStream ∧ options.store.isSome then ["xs ".toList ++ b.xsVersion] else []) ++
      (if options.datastar then ["datastar ".toList ++ datastarVersion] else []))

def optsText (http xs : List Str) : Str :=
  if xs = [] then " ".toList.intercalate http
  else if http = [] then "xs ".toList ++ " ".toList.intercalate xs
  else " ".toList.intercalate http ++ " │ xs ".toList ++ " ".toList.intercalate xs

def preamble (b : Build) (now : Moment) (address : Str) (startupMs : Nat) (options : StartupOptions) : List Str :=
  ["<http-nu version=\"".toList ++ b.version ++ "\">".toList,
    "     __  ,".toList,
    " .--()°'.'  pid ".toList ++ digits b.pid ++ " · ".toList ++ address ++ " · ".toList ++ digits startupMs ++
      "ms 💜".toList,
    "'|, . ,'    ".toList ++ now.date] ++
  if httpOpts options ≠ [] ∨ xsOpts options ≠ [] then
    [" !_-(_\\     ".toList ++ optsText (httpOpts options) (xsOpts options),
      "            ".toList ++ versionsText b options]
  else [" !_-(_\\     ".toList ++ versionsText b options]

namespace State

variable (b : Build)

def finish (s : State) : State :=
  let s := s.clear
  let s := if 0 < s.skipped then s.println (.skips s.skipped) (skipSummary s.skipped) else s
  let s :=
    if 0 < s.lagged then
      s.println .plain ("⚠ total lagged: ".toList ++ digits s.lagged ++ " events dropped".toList)
    else s
  { s with phase := .stopped }

def showRequest (s : State) (now : Moment) (id : Scru128Id) (request : RequestData) : State :=
  let s :=
    if 0 < s.skipped then { s.printPermanent (.skips s.skipped) (skipSummary s.skipped) with skipped := 0 } else s
  let state : RequestState := ⟨request.method, request.path, request.trustedIp, now.instant, none, none⟩
  ({ s with requests := s.requests.insert id state, activeIds := s.activeIds ++ [id] } : State).clear.redraw now

def handle (s : State) (now : Moment) : LogEvent → State
  | .started address startupMs options =>
    ((preamble b now address startupMs options).foldl (fun s line => s.printPermanent .plain line) s).redraw now
  | .reloaded => (s.printPermanent .plain "reloaded 🔄".toList).redraw now
  | .error error =>
    ({ s with zone := s.zone.clear.eprintln ("ERROR: ".toList ++ error) } : State).redraw now
  | .print message => (s.printPermanent .plain ("PRINT: ".toList ++ message)).redraw now
  | .stopping inflight =>
    (s.printPermanent .plain
      ("stopping, ".toList ++ digits inflight ++ " connection(s) in flight...".toList)).redraw now
  | .stopped =>
      (s.printPermanent .plain (now.timestamp ++ " cu l8r".toList)).clear.println .plain "</http-nu>".toList
  | .stopTimedOut => s.printPermanent .plain "stop timed out, forcing exit".toList
  | .request id request =>
    if now.tryConsume then s.showRequest now id request else { s with skipped := s.skipped + 1 }
  | .response id status _ latencyMs =>
    match s.requests.lookup id with
    | none => s
    | some state =>
      let state := { state with status := some status, latencyMs := some latencyMs }
      ({ s with requests := s.requests.insert id state } : State).clear.redraw now
  | .complete id bytes durationMs =>
    match s.requests.lookup id with
    | none => s
    | some state =>
      let s := { s with requests := s.requests.erase id, activeIds := s.activeIds.filter (fun x => x ≠ id) }
      match formatCompleteLine now state durationMs bytes with
      | none => { s with phase := .panicked }
      | some line => (s.printPermanent (.completes id) line).redraw now
  | .shutdown => s.finish

/-- Their `Response` and `Complete` may have been among the events dropped. -/
def lag (s : State) (n : Nat) : State :=
  ({ s with lagged := s.lagged + n, requests := ∅, activeIds := [] } : State).printPermanent .plain
    ("⚠ lagged: dropped ".toList ++ digits n ++ " events, cleared in-flight".toList)

end State

inductive Received where
  | event (e : LogEvent) (now : Moment)
  | lagged (n : Nat)
  | closed

def step (b : Build) (s : State) (r : Received) : State :=
  match s.phase, r with
  | .running, .lagged n => s.lag n
  | .running, .closed => s.finish
  | .running, .event e now => s.handle b now e
  | _, _ => s

def run (b : Build) (received : List Received) : State := received.foldl (step b) init

end HttpNu.Logging.Human
