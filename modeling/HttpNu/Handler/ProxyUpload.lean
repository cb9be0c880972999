import HttpNu.Commands.ReverseProxy
import HttpNu.Handler.ProxyTarget

/-! The body of a request on its way through `.reverse-proxy`: the task that reads its frames, the channel, the
stream over it, and the request that is sent. -/

namespace HttpNu.Handler

open Text Library Http Response Worker Logging
open Commands.ReverseProxy (readBody requestBody reverseProxy parseConfig)

/-- The frames that the body of a request gives, and an error if it breaks off. -/
abbrev Upload := List (Except Str Frame)

def dataOf : Frame → Bytes
  | .data bytes => bytes
  | .trailers => []

def content (upload : Upload) : Except Str Bytes := (upload.mapM id).map (fun frames => frames.flatMap dataOf)

structure Transfer where
  frames : Upload
  channel : Mpsc (Except Str Bytes)

namespace Transfer

def capacity : Nat := 32

def init (upload : Upload) : Transfer := ⟨upload, .new⟩

inductive Act where
  | frame
  | recv

/-- The task waits while the channel is full, and ends after an error; a `blocking_recv` waits for an item. -/
def step (s : Transfer) : Act → Option Transfer
  | .frame =>
    if s.channel.closed then none
    else
      match s.frames with
      | [] => some { s with channel := s.channel.close }
      | .ok (.data bytes) :: rest =>
        if s.channel.queue.length < capacity then some ⟨rest, s.channel.send (.ok bytes)⟩ else none
      | .ok .trailers :: rest => some { s with frames := rest }
      | .error err :: rest =>
        if s.channel.queue.length < capacity then some ⟨rest, (s.channel.send (.error err)).close⟩ else none
  | .recv =>
    match s.channel.recv with
    | (.item _, channel) => some { s with channel := channel }
    | _ => none

def Ended (s : Transfer) : Prop := s.channel.closed = true ∧ s.channel.queue = []

def sends : Upload → List (Except Str Bytes)
  | [] => []
  | .ok (.data bytes) :: rest => .ok bytes :: sends rest
  | .ok .trailers :: rest => sends rest
  | .error err :: _ => [.error err]

def Inv (upload : Upload) (s : Transfer) : Prop :=
  s.channel.sent ++ (if s.channel.closed then [] else sends s.frames) = sends upload

lemma inv_init (upload : Upload) : Inv upload (init upload) := rfl

lemma inv_step {upload : Upload} (s : Transfer) (a : Act) (s' : Transfer) (h : Inv upload s)
    (hs : step s a = some s') :
    Inv upload s' := by
  obtain ⟨frames, channel⟩ := s
  cases a with
  | frame =>
    simp only [step] at hs
    split at hs
    · cases hs
    rename_i hopen
    have hsent : channel.sent ++ sends frames = sends upload := by
      rwa [Inv, if_neg hopen] at h
    split at hs
    · obtain rfl := Option.some.inj hs
      exact hsent
    · split at hs
      · obtain rfl := Option.some.inj hs
        rw [Inv, Mpsc.closed_send, if_neg hopen, Mpsc.sent_send, List.append_assoc]
        exact hsent
      · cases hs
    · obtain rfl := Option.some.inj hs
      rw [Inv, if_neg hopen]
      exact hsent
    · split at hs
      · obtain rfl := Option.some.inj hs
        rw [Inv, ← hsent]
        exact List.append_nil _
      · cases hs
  | recv =>
    simp only [step] at hs
    split at hs
    · rename_i hrecv
      obtain ⟨hsent, hclosed, _⟩ := Mpsc.recv_item hrecv
      obtain rfl := Option.some.inj hs
      rw [Inv, hsent, hclosed]
      exact h
    · cases hs

lemma received_of_ended {upload : Upload} {acts : List Act} {s : Transfer}
    (h : run step (init upload) acts = some s)
    (hended : s.Ended) : s.channel.received = sends upload := by
  have hinv : Inv upload s := run_invariant inv_step (inv_init upload) h
  rw [Inv, if_pos hended.1, List.append_nil, ← Mpsc.received_of_queue_nil hended.2] at hinv
  exact hinv

lemma exists_ended (frames : Upload) {channel : Mpsc (Except Str Bytes)} (hopen : channel.closed = false)
    (hempty : channel.queue = []) : ∃ acts s, run step ⟨frames, channel⟩ acts = some s ∧ s.Ended := by
  induction frames generalizing channel with
  | nil =>
    have hstep : step ⟨[], channel⟩ .frame = some ⟨[], channel.close⟩ := by simp [step, hopen]
    exact ⟨[.frame], _, run_of_step hstep, rfl, hempty⟩
  | cons frame frames ih =>
    rcases frame with err | (bytes | _)
    · have hstep : step ⟨.error err :: frames, channel⟩ .frame =
        some ⟨frames, (channel.send (.error err)).close⟩ := by
        simp [step, hopen, hempty, capacity]
      have hqueue : (channel.send (.error err)).close.queue = [.error err] := by
        have hsend := Mpsc.queue_send channel (.error err)
        rw [hempty, List.nil_append] at hsend
        exact hsend
      obtain ⟨channel', hrecv, hqueue'⟩ := Mpsc.recv_of_queue hqueue
      have hstep' : step ⟨frames, (channel.send (.error err)).close⟩ .recv = some ⟨frames, channel'⟩ := by
        simp only [step, hrecv]
      exact ⟨[.frame, .recv], _, (run_of_step hstep).trans (run_of_step hstep'),
        (Mpsc.recv_item hrecv).2.1, hqueue'⟩
    · have hstep : step ⟨.ok (.data bytes) :: frames, channel⟩ .frame =
        some ⟨frames, channel.send (.ok bytes)⟩ := by
        simp [step, hopen, hempty, capacity]
      have hqueue : (channel.send (.ok bytes)).queue = [.ok bytes] := by
        rw [Mpsc.queue_send, hempty, List.nil_append]
      obtain ⟨channel', hrecv, hqueue'⟩ := Mpsc.recv_of_queue hqueue
      have hstep' : step ⟨frames, channel.send (.ok bytes)⟩ .recv = some ⟨frames, channel'⟩ := by
        simp only [step, hrecv]
      obtain ⟨acts, s, hrun, hended⟩ := ih ((Mpsc.recv_item hrecv).2.1.trans hopen) hqueue'
      exact ⟨.frame :: .recv :: acts, s, by rw [run_of_step hstep, run_of_step hstep', hrun], hended⟩
    · have hstep : step ⟨.ok .trailers :: frames, channel⟩ .frame = some ⟨frames, channel⟩ := by simp [step, hopen]
      obtain ⟨acts, s, hrun, hended⟩ := ih hopen hempty
      exact ⟨.frame :: acts, s, by rw [run_of_step hstep, hrun], hended⟩

lemma exists_drained (frames : Upload) (queue : List (Except Str Bytes)) {channel : Mpsc (Except Str Bytes)}
    (h : channel.queue = queue) :
    ∃ acts s, run step ⟨frames, channel⟩ acts = some s ∧ s.channel.queue = [] := by
  induction queue generalizing channel with
  | nil => exact ⟨[], _, rfl, h⟩
  | cons item queue ih =>
    obtain ⟨channel', hrecv, hqueue⟩ := Mpsc.recv_of_queue h
    have hstep : step ⟨frames, channel⟩ .recv = some ⟨frames, channel'⟩ := by simp only [step, hrecv]
    obtain ⟨acts, s, hrun, hempty⟩ := ih hqueue
    exact ⟨.recv :: acts, s, by rw [run_of_step hstep, hrun], hempty⟩

lemma can_end (s : Transfer) : ∃ acts s', run step s acts = some s' ∧ s'.Ended := by
  obtain ⟨acts, t, hrun, hempty⟩ := exists_drained s.frames s.channel.queue rfl
  cases hclosed : t.channel.closed with
  | true => exact ⟨acts, t, hrun, hclosed, hempty⟩
  | false =>
    obtain ⟨acts', s', hrun', hended⟩ := exists_ended t.frames hclosed hempty
    exact ⟨acts ++ acts', s', by rw [run_of_append hrun, hrun'], hended⟩

end Transfer

def delivered {ε : Type} : List (Except ε Bytes) → Bytes
  | .ok bytes :: rest => bytes ++ delivered rest
  | _ => []

def failure {ε : Type} : List (Except ε Bytes) → Option ε
  | [] => none
  | .ok _ :: rest => failure rest
  | .error err :: _ => some err

/-- `ByteStream::from_fn`, as it is read: the bytes that its generator gives, in reads that have some, until the
generator ends or fails. -/
structure ByteStreams where
  reads : List (Except ShellError Bytes) → Reader
  flatten : ∀ items, ((reads items).pulls.map Pull.item).flatten = delivered items
  nonempty : ∀ items, ∀ pull ∈ (reads items).pulls, pull.item ≠ []
  last : ∀ items, (reads items).last = (failure items).elim .eof .shellError

def generated : Except Str Bytes → Except ShellError Bytes
  | .ok bytes => .ok bytes
  | .error err => .error (.generic "Body read error".toList err)

def bodyStream (S : ByteStreams) (received : List (Except Str Bytes)) : PipelineData :=
  .byteStream (some (S.reads (received.map generated))) none

lemma delivered_generated (items : List (Except Str Bytes)) :
    delivered (items.map generated) = delivered items := by
  induction items with
  | nil => rfl
  | cons item items ih =>
    cases item with
    | ok bytes => exact congrArg (bytes ++ ·) ih
    | error err => rfl

lemma content_cons (frame : Frame) (upload : Upload) :
    content (.ok frame :: upload) = (content upload).map (fun bytes => dataOf frame ++ bytes) := by
  rw [content, content, List.mapM_cons]
  cases upload.mapM id <;> rfl

lemma content_eq (upload : Upload) : content upload =
    (failure (Transfer.sends upload)).elim (.ok (delivered (Transfer.sends upload))) .error := by
  induction upload with
  | nil => rfl
  | cons frame upload ih =>
    rcases frame with err | (bytes | _)
    · rfl
    · rw [content_cons, ih, Transfer.sends, failure, delivered]
      cases failure (Transfer.sends upload) <;> rfl
    · rw [content_cons, ih, Transfer.sends]
      cases failure (Transfer.sends upload) <;> rfl

/-- The loop ends alike after the end and after an error, with what was read before. -/
lemma requestBody_bodyStream (R : Rendering) (S : ByteStreams) (received : List (Except Str Bytes)) :
    requestBody R (bodyStream S received) = some (delivered received) := by
  have hlast : (S.reads (received.map generated)).last ≠ .panics := by
    rw [S.last]
    cases failure (received.map generated) <;> simp
  rw [bodyStream, requestBody, Commands.ReverseProxy.readBody_eq hlast (S.nonempty _), S.flatten,
    delivered_generated,
    List.nil_append]

variable {Net : Type} (W : World Net)

abbrev Answer := Awaited (Except Str (UInt16 × HeaderMap))

abbrev Target := ProxyRequest → Answer

def proxied (config : AppConfig Net) (addr : Option (Request.IpAddr × UInt16)) (parts : Parts)
    (evaluation : Evaluation)
    (requestId : Nat) (target : Target) : List Event × Handled :=
  handle { W with forward := target } config addr parts evaluation requestId

/-- The handler closure gives the body to `.reverse-proxy`, whose special response is the first. -/
structure Proxies (config : AppConfig Net) (addr : Option (Request.IpAddr × UInt16)) (parts : Parts)
    (evaluation : Evaluation) (targetUrl : Str) (options : Option Value) (input : PipelineData) : Prop where
  route : ¬ (config.datastar = true ∧ parts.uri.path = datastarJsPath)
  special : firstSpecial evaluation.clonePanics (evaluation.run (requestOf W config addr parts)) =
    reverseProxy W.rendering targetUrl options input

def Proceeds (parts : Parts) (evaluation : Evaluation) (targetUrl : Str) (options : Option Value) : Prop :=
  evaluation.aborted = false ∧
    (∃ uri, W.parseUri (targetUri W targetUrl parts.uri (parseConfig options).stripPrefix
      (parseConfig options).query) =
      .ok uri) ∧
    ValidHeaders (fun _ => false) (parseConfig options).headers ∧
    ((parseConfig options).preserveHost = false → ∀ authority ∈ (W.parseUri targetUrl).toOption.bind Uri.authority,
      (HeaderValue.fromStr authority).isSome)

def Forwards (respond : Target → List Event × Handled) (built : ProxyRequest) : Prop :=
  ∃ answer : Answer → List Event × Handled, (∀ target, respond target = answer (target built)) ∧
    ∀ status headers, ∃ guard,
      (answer (.ready (.ok (status, headers)))).2 = .responded ⟨status, headers, .logging .upstream guard⟩

def Withholds (respond : Target → List Event × Handled) : Prop :=
  ∃ events ended, (∀ target, respond target = (events, ended)) ∧
    (ended = .aborted ∨ ∃ err, ended = .responded (errorReply err))

/-- What is uploaded without error is forwarded as it is, and a broken upload is not forwarded. -/
def Meets (respond : Target → List Event × Handled) (upload : Upload) (proceeds : Prop) : Prop :=
  match content upload with
  | .ok bytes =>
      (proceeds → ∃ built, Forwards respond built ∧ built.body = bytes) ∧ (¬ proceeds → Withholds respond)
  | .error _ => Withholds respond

lemma Forwards.not_withholds {respond : Target → List Event × Handled} {built : ProxyRequest}
    (h : Forwards respond built) : ¬ Withholds respond := by
  rintro ⟨events, ended, hwithheld, hended⟩
  obtain ⟨answer, hanswer, hok⟩ := h
  obtain ⟨guard, hresponded⟩ := hok 200 .empty
  have hsame := (hanswer (fun _ => .ready (.ok (200, .empty)))).symm.trans (hwithheld _)
  rw [hsame] at hresponded
  rcases hended with rfl | ⟨err, rfl⟩
  · cases hresponded
  · have hstatus : (500 : UInt16) = 200 := congrArg Reply.status (Handled.responded.inj hresponded)
    exact absurd hstatus (by decide)

def requested (parts : Parts) (targetUrl : Str) (options : Option Value) (body : Bytes) :
    Except Str ProxyRequest :=
  proxyRequest W parts targetUrl (parseConfig options).headers (parseConfig options).preserveHost
    (parseConfig options).stripPrefix body (parseConfig options).query

lemma proxyRequest_body {parts : Parts} {targetUrl : Str} {headers : Headers} {preserveHost : Bool}
    {stripped : Option Str} {requestBody : Bytes} {query : Option (List (Str × Str))} {built : ProxyRequest}
    (h : proxyRequest W parts targetUrl headers preserveHost stripped requestBody query = .ok built) :
    built.body = requestBody := by
  simp only [proxyRequest, bind, Except.bind] at h
  repeat' split at h
  all_goals cases h
  rfl

variable {W} {config : AppConfig Net} {addr : Option (Request.IpAddr × UInt16)} {parts : Parts}
    {evaluation : Evaluation}
  {targetUrl : Str} {options : Option Value} {input : PipelineData} {body : Bytes}

lemma dispatch_proxied (h : Proxies W config addr parts evaluation targetUrl options input)
    (hstays : evaluation.aborted = false) (hbody : requestBody W.rendering input = some body)
    (guard : RequestGuard)
    (target : Target) :
    dispatch { W with forward := target } config addr parts evaluation guard =
      proxyResponse { W with forward := target } guard (requested W parts targetUrl options body) := by
  have hspecial := h.special
  rw [reverseProxy, hbody, Option.map_some] at hspecial
  rw [dispatch_eq h.route hstays]
  change respondWith _ guard parts
    (firstSpecial evaluation.clonePanics (evaluation.run (requestOf W config addr parts))) _ = _
  rw [hspecial]
  rfl

lemma withholds_of_aborted (hroute : ¬ (config.datastar = true ∧ parts.uri.path = datastarJsPath))
    (haborted : evaluation.aborted = true) (requestId : Nat) :
    Withholds (proxied W config addr parts evaluation requestId) := by
  refine ⟨[.request requestId (requestOf W config addr parts), .complete requestId 0], .aborted, ?_, .inl rfl⟩
  intro target
  rw [proxied, handle, handleInner_eq, dispatch, if_neg (by simpa using hroute), if_pos haborted]
  rfl

lemma withholds_of_error (h : Proxies W config addr parts evaluation targetUrl options input)
    (hstays : evaluation.aborted = false) (hbody : requestBody W.rendering input = some body) {err : Str}
    (hrequested : requested W parts targetUrl options body = .error err) (requestId : Nat) :
    Withholds (proxied W config addr parts evaluation requestId) := by
  refine ⟨[.request requestId (requestOf W config addr parts), .complete requestId 0],
    .responded (errorReply err), ?_,
    .inr ⟨err, rfl⟩⟩
  intro target
  rw [proxied, handle, handleInner_eq, dispatch_proxied h hstays hbody, hrequested]
  rfl

lemma forwards_of_ok (h : Proxies W config addr parts evaluation targetUrl options input)
    (hstays : evaluation.aborted = false) (hbody : requestBody W.rendering input = some body)
    {built : ProxyRequest}
    (hrequested : requested W parts targetUrl options body = .ok built) (requestId : Nat) :
    Forwards (proxied W config addr parts evaluation requestId) built := by
  have hproxied : ∀ target, proxied W config addr parts evaluation requestId target =
      proxied W config addr parts evaluation requestId (fun _ => target built) := by
    intro target
    simp only [proxied, handle, handleInner_eq, dispatch_proxied h hstays hbody, hrequested]
    rfl
  refine ⟨fun answer => proxied W config addr parts evaluation requestId (fun _ => answer), hproxied, ?_⟩
  intro status headers
  refine ⟨.new requestId, ?_⟩
  simp only [proxied, handle, handleInner_eq, dispatch_proxied h hstays hbody, hrequested]
  rfl

variable {S : ByteStreams} {received : List (Except Str Bytes)}

lemma forwards_delivered (h : Proxies W config addr parts evaluation targetUrl options (bodyStream S received))
    (hproceeds : Proceeds W parts evaluation targetUrl options) (requestId : Nat) :
    ∃ built, Forwards (proxied W config addr parts evaluation requestId) built ∧
      built.body = delivered received := by
  obtain ⟨built, hbuilt⟩ := (proxyRequest_ok_iff W parts targetUrl _ _ _ (delivered received) _).mpr hproceeds.2
  exact ⟨built, forwards_of_ok h hproceeds.1 (requestBody_bodyStream _ S received) hbuilt requestId,
    proxyRequest_body W hbuilt⟩

lemma withholds_delivered (h : Proxies W config addr parts evaluation targetUrl options (bodyStream S received))
    (hproceeds : ¬ Proceeds W parts evaluation targetUrl options) (requestId : Nat) :
    Withholds (proxied W config addr parts evaluation requestId) := by
  cases haborted : evaluation.aborted with
  | true => exact withholds_of_aborted h.route haborted requestId
  | false =>
    cases hrequested : requested W parts targetUrl options (delivered received) with
    | error err => exact withholds_of_error h haborted (requestBody_bodyStream _ S received) hrequested requestId
    | ok built =>
      have hvalid := (proxyRequest_ok_iff W parts targetUrl _ _ _ (delivered received) _).mp ⟨built, hrequested⟩
      exact absurd ⟨haborted, hvalid⟩ hproceeds

/-- However the body is cut into frames, and however its reading is interleaved with its sending, it is exactly a
broken upload that is forwarded wrongly. -/
theorem proxied_meets_iff (W : World Net) (S : ByteStreams) (config : AppConfig Net)
    (addr : Option (Request.IpAddr × UInt16)) (parts : Parts) (targetUrl : Str) (options : Option Value)
    (upload : Upload) :
    (∃ acts s, run Transfer.step (Transfer.init upload) acts = some s ∧ s.Ended) ∧
      ∀ acts s evaluation requestId, run Transfer.step (Transfer.init upload) acts = some s → s.Ended →
        Proxies W config addr parts evaluation targetUrl options (bodyStream S s.channel.received) →
          (Meets (proxied W config addr parts evaluation requestId) upload
              (Proceeds W parts evaluation targetUrl options) ↔
            (∃ bytes, content upload = .ok bytes) ∨ ¬ Proceeds W parts evaluation targetUrl options) := by
  refine ⟨Transfer.can_end (Transfer.init upload), ?_⟩
  intro acts s evaluation requestId hrun hended hproxies
  rw [Transfer.received_of_ended hrun hended] at hproxies
  have hcontent := content_eq upload
  rw [Meets]
  cases hfailure : failure (Transfer.sends upload) with
  | none =>
    rw [hfailure, Option.elim_none] at hcontent
    rw [hcontent]
    refine iff_of_true ⟨?_, ?_⟩ (.inl ⟨_, rfl⟩)
    · intro hproceeds
      exact forwards_delivered hproxies hproceeds requestId
    · intro hproceeds
      exact withholds_delivered hproxies hproceeds requestId
  | some err =>
    rw [hfailure, Option.elim_some] at hcontent
    rw [hcontent]
    constructor
    · intro hwithholds
      refine .inr (fun hproceeds => ?_)
      obtain ⟨built, hforwards, _⟩ := forwards_delivered hproxies hproceeds requestId
      exact hforwards.not_withholds hwithholds
    · rintro (⟨bytes, hbytes⟩ | hproceeds)
      · cases hbytes
      · exact withholds_delivered hproxies hproceeds requestId

def readItems {ε : Type} : List (Except ε Bytes) → List (Pull Bytes)
  | .ok bytes :: rest => if bytes = [] then readItems rest else ⟨[], bytes⟩ :: readItems rest
  | _ => []

def byteStreams : ByteStreams where
  reads items := ⟨readItems items, [], (failure items).elim .eof .shellError⟩
  flatten items := by
    dsimp only
    induction items with
    | nil => rfl
    | cons item items ih =>
      cases item with
      | error err => rfl
      | ok bytes =>
        rw [readItems, delivered, ← ih]
        split_ifs with hempty
        · rw [hempty, List.nil_append]
        · rfl
  nonempty items := by
    dsimp only
    induction items with
    | nil => exact fun pull hpull => nomatch hpull
    | cons item items ih =>
      cases item with
      | error err => exact fun pull hpull => nomatch hpull
      | ok bytes =>
        rw [readItems]
        split_ifs with hempty
        · exact ih
        · exact List.forall_mem_cons.mpr ⟨hempty, ih⟩
  last _ := rfl

def fiveValue : Http.HeaderValue := ⟨utf8 "5".toList, by decide⟩
def twoValue : Http.HeaderValue := ⟨utf8 "2".toList, by decide⟩

def uploadParts : Parts :=
  ⟨"HTTP/1.1".toList, "POST".toList, ⟨"/upload".toList, none, "/upload".toList, none⟩,
    ⟨[(contentLength, fiveValue)]⟩⟩

def proxying (received : List (Except Str Bytes)) : Evaluation :=
  ⟨fun _ => ⟨(reverseProxy .plain backend.text none (bodyStream byteStreams received)).toList, .ok .empty⟩, false,
    none,
    false⟩

lemma proxies_proxying (received : List (Except Str Bytes)) :
    Proxies grammarWorld ⟨[], false⟩ none uploadParts (proxying received) backend.text none
      (bodyStream byteStreams received) :=
  ⟨by simp, Option.head?_toList⟩

def wholeUpload : Upload := [.ok (.data (utf8 "ab".toList)), .ok (.data (utf8 "cde".toList))]

theorem proxied_meets_whole :
    ∃ s, run Transfer.step (Transfer.init wholeUpload) [.frame, .recv, .frame, .frame, .recv] = some s ∧
      Meets (proxied grammarWorld ⟨[], false⟩ none uploadParts (proxying s.channel.received) 7) wholeUpload
        (Proceeds grammarWorld uploadParts (proxying s.channel.received) backend.text none) := by
  refine ⟨_, rfl, ?_⟩
  apply ((proxied_meets_iff grammarWorld byteStreams ⟨[], false⟩ none uploadParts backend.text none wholeUpload).2
    [.frame, .recv, .frame, .frame, .recv] _ _ 7 rfl ⟨rfl, rfl⟩ (proxies_proxying _)).mpr
  exact .inl ⟨_, rfl⟩

def brokenUpload : Upload := [.ok (.data (utf8 "ab".toList)), .error "reset".toList]

def truncatedRequest : ProxyRequest :=
  ⟨⟨"http://backend/upload".toList, some "backend".toList, "/upload".toList, none⟩, "POST".toList,
    ⟨[(contentLength, twoValue)]⟩, utf8 "ab".toList⟩

theorem proxied_truncated :
    ∃ s, run Transfer.step (Transfer.init brokenUpload) [.frame, .frame, .recv, .recv] = some s ∧ s.Ended ∧
      Proxies grammarWorld ⟨[], false⟩ none uploadParts (proxying s.channel.received) backend.text none
        (bodyStream byteStreams s.channel.received) ∧
      Forwards (proxied grammarWorld ⟨[], false⟩ none uploadParts (proxying s.channel.received) 7)
      truncatedRequest ∧
      ¬ Meets (proxied grammarWorld ⟨[], false⟩ none uploadParts (proxying s.channel.received) 7) brokenUpload
        (Proceeds grammarWorld uploadParts (proxying s.channel.received) backend.text none) := by
  have hrequested : requested grammarWorld uploadParts backend.text none
    (delivered (Transfer.sends brokenUpload)) =
      .ok truncatedRequest := rfl
  have hbody := requestBody_bodyStream grammarWorld.rendering byteStreams (Transfer.sends brokenUpload)
  have hforwards := forwards_of_ok (proxies_proxying (Transfer.sends brokenUpload)) rfl hbody hrequested 7
  exact ⟨_, rfl, ⟨rfl, rfl⟩, proxies_proxying _, hforwards, hforwards.not_withholds⟩

end HttpNu.Handler
