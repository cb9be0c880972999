import HttpNu.Library.TagNames
import HttpNu.Value

/-! `.md`: Markdown to HTML, by events that are mapped one by one between the parser and the renderer. -/

namespace HttpNu.Commands.Md

open Text Library

inductive HeadingLevel where
  | h1
  | h2
  | h3
  | h4
  | h5
  | h6
  deriving DecidableEq

inductive BlockQuoteKind where
  | note
  | tip
  | important
  | warning
  | caution
  deriving DecidableEq

inductive CodeBlockKind where
  | indented
  | fenced (info : Str)
  deriving DecidableEq

inductive Alignment where
  | none
  | left
  | center
  | right
  deriving DecidableEq

inductive LinkType where
  | inline
  | reference
  | referenceUnknown
  | collapsed
  | collapsedUnknown
  | shortcut
  | shortcutUnknown
  | autolink
  | email
  deriving DecidableEq

inductive MetadataBlockKind where
  | yamlStyle
  | plusesStyle
  deriving DecidableEq

/-- The tags of the parser's events; the `attrs` of a heading are the pairs written in its braces. -/
inductive Tag where
  | paragraph
  | heading (level : HeadingLevel) (id : Option Str) (classes : List Str) (attrs : List (Str × Option Str))
  | blockQuote (kind : Option BlockQuoteKind)
  | codeBlock (kind : CodeBlockKind)
  | htmlBlock
  | list (first : Option Nat)
  | item
  | footnoteDefinition (label : Str)
  | definitionList
  | definitionListTitle
  | definitionListDefinition
  | table (alignments : List Alignment)
  | tableHead
  | tableRow
  | tableCell
  | emphasis
  | strong
  | strikethrough
  | link (linkType : LinkType) (destUrl title id : Str)
  | image (linkType : LinkType) (destUrl title id : Str)
  | metadataBlock (kind : MetadataBlockKind)
  deriving DecidableEq

inductive TagEnd where
  | paragraph
  | heading (level : HeadingLevel)
  | blockQuote (kind : Option BlockQuoteKind)
  | codeBlock
  | htmlBlock
  | list (ordered : Bool)
  | item
  | footnoteDefinition
  | definitionList
  | definitionListTitle
  | definitionListDefinition
  | table
  | tableHead
  | tableRow
  | tableCell
  | emphasis
  | strong
  | strikethrough
  | link
  | image
  | metadataBlock (kind : MetadataBlockKind)
  deriving DecidableEq

inductive Event where
  | start (tag : Tag)
  | stop (tag : TagEnd)
  | text (s : Str)
  | code (s : Str)
  | inlineMath (s : Str)
  | displayMath (s : Str)
  | html (s : Str)
  | inlineHtml (s : Str)
  | footnoteReference (label : Str)
  | softBreak
  | hardBreak
  | rule
  | taskListMarker (checked : Bool)
  deriving DecidableEq

inductive ParseOption where
  | tables
  | strikethrough
  | tasklists
  | footnotes
  | headingAttributes
  | gfm
  | definitionList

def options : List ParseOption :=
  [.tables, .strikethrough, .tasklists, .footnotes, .headingAttributes, .gfm, .definitionList]

/-- The syntaxes of `syntect`, and its generator of HTML with classes, which is given the code line by line. -/
structure Syntect where
  Syntax : Type
  Generator : Type
  findSyntaxByToken : Str → Option Syntax
  findSyntaxByExtension : Str → Option Syntax
  findSyntaxPlainText : Syntax
  newWithClassStyle : Syntax → Generator
  parseHtmlForLine : Generator → Str → Generator
  finalize : Generator → Str

structure Renderer where
  parse : List ParseOption → Str → List Event
  pushHtml : List Event → Str
  syntect : Syntect

def linesWithEndings : Str → List Str
  | [] => []
  | c :: cs =>
    if c = '\n' then [c] :: linesWithEndings cs
    else
      match linesWithEndings cs with
      | [] => [[c]]
      | line :: lines => (c :: line) :: lines

example : linesWithEndings "a\n\nb".toList = ["a\n".toList, "\n".toList, "b".toList] := by decide

/-- `SyntaxHighlighter::highlight`: a line that cannot be parsed is passed over. -/
def Renderer.highlight (R : Renderer) (code : Str) (lang : Option Str) : Str :=
  let found := (lang.bind (fun lang =>
    (R.syntect.findSyntaxByToken lang).orElse (fun _ => R.syntect.findSyntaxByExtension lang))).getD
      R.syntect.findSyntaxPlainText
  let generator := (linesWithEndings code).foldl R.syntect.parseHtmlForLine (R.syntect.newWithClassStyle found)
  R.syntect.finalize generator

def escapeChar (c : Char) : Str :=
  if c = '<' then "&lt;".toList
  else if c = '>' then "&gt;".toList
  else if c = '&' then "&amp;".toList
  else if c = '"' then "&quot;".toList
  else if c = '\'' then "&#x27;".toList
  else if c = '/' then "&#x2f;".toList
  else [c]

def escape (s : Str) : Str := s.flatMap escapeChar

def firstWord (s : Str) : Str := (s.dropWhile isWhitespace).takeWhile (fun c => !isWhitespace c)

def langOf : CodeBlockKind → Option Str
  | .fenced info => if firstWord info = [] then none else some (firstWord info)
  | .indented => none

structure MapState where
  inCodeBlock : Bool := false
  currentCode : Str := []
  currentLang : Option Str := none

def langClass : Option Str → Str
  | some lang => " class=\"language-".toList ++ escape lang ++ "\"".toList
  | none => []

def codeBlockHtml (highlighted : Str) (lang : Option Str) : Str :=
  "<pre><code".toList ++ langClass lang ++ ">".toList ++ highlighted ++ "</code></pre>".toList

variable (R : Renderer) (trusted : Bool)

def mapEvent (s : MapState) : Event → MapState × Event
  | .start (.codeBlock kind) => (⟨true, [], langOf kind⟩, .text [])
  | .stop .codeBlock =>
    ({ s with inCodeBlock := false },
      .html (codeBlockHtml (R.highlight s.currentCode s.currentLang) s.currentLang))
  | .text text =>
    if s.inCodeBlock then ({ s with currentCode := s.currentCode ++ text }, .text []) else (s, .text text)
  | .html html => if trusted then (s, .html html) else (s, .text html)
  | .inlineHtml html => if trusted then (s, .inlineHtml html) else (s, .text html)
  | e => (s, e)

def mapEvents : MapState → List Event → List Event
  | _, [] => []
  | s, e :: es => (mapEvent R trusted s e).2 :: mapEvents (mapEvent R trusted s e).1 es

def trustMismatch : Str := "expected string or ".toList ++ braced "__html: ...".toList

/-- A plain string is untrusted, an `__html` record is trusted. -/
def markdownOf (typeName : Value → Str) : Value → Except ShellError (Str × Bool)
  | .string val => .ok (val, false)
  | .record val =>
    match Record.get val "__html".toList with
    | some (.string html) => .ok (html, true)
    | some other => .error (.cantConvert "string".toList (typeName other))
    | none => .error (.typeMismatch trustMismatch)
  | other => .error (.typeMismatch (trustMismatch ++ ", got ".toList ++ typeName other))

def handed (markdown : Str) : List Event := mapEvents R trusted {} (R.parse options markdown)

def run (typeName : Value → Str) (input : Except ShellError Value) : Except ShellError Value := do
  let (markdown, trusted) ← markdownOf typeName (← input)
  return .record [("__html".toList, .string (R.pushHtml (handed R trusted markdown)))]

/-- The names that the author of a heading gives its attributes, which `push_html` writes as they are. -/
def Event.authoredNames : Event → List Str
  | .start (.heading _ _ _ attrs) => attrs.map Prod.fst
  | _ => []

def Inert (value : Str) : Prop := ∀ c ∈ value, c ≠ '"' ∧ c ≠ '<' ∧ c ≠ '>'

instance (value : Str) : Decidable (Inert value) := List.decidableBAll _ value

/-- What a generator writes: escaped text, and spans whose classes are the scopes of the syntax. -/
inductive Span where
  | text (s : Str)
  | opening (classes : Str)
  | closing

namespace Span

def write : Span → Str
  | text s => s
  | opening classes => "<span class=\"".toList ++ classes ++ "\">".toList
  | closing => "</span>".toList

def Inert : Span → Prop
  | text s => Md.Inert s
  | opening classes => Md.Inert classes
  | closing => True

end Span

/-- The generator wraps the text of the code, which it escapes, in spans, and writes no other markup. -/
def Syntect.Classed (S : Syntect) : Prop :=
  ∀ found (lines : List Str), ∃ spans : List Span,
    S.finalize (lines.foldl S.parseHtmlForLine (S.newWithClassStyle found)) = spans.flatMap Span.write ∧
      ∀ span ∈ spans, span.Inert

def ownNames : List Str := ["pre".toList, "code".toList, "span".toList, "class".toList]

/-- HTML built at the end of a code block: its markup is fixed, around what the highlighter makes of the code. -/
def OwnHtml (html : Str) : Prop :=
  ∃ code lang, html = codeBlockHtml (R.highlight code lang) lang ∧ ∀ l ∈ lang, Inert (escape l)

/-- What is handed to `push_html` has no HTML but that of the code blocks, and no names but the renderer's, neither
in that HTML nor in the headings. -/
structure Safe (given handed : List Event) : Prop where
  ownHtml : ∀ (i : Nat) html, handed[i]? = some (.html html) → given[i]? = some (.stop .codeBlock) ∧ OwnHtml R html
  noInlineHtml : ∀ html, .inlineHtml html ∉ handed
  noAuthored : ∀ e ∈ handed, e.authoredNames = []
  ownNames : ∀ html, .html html ∈ handed → ∃ names, TagNames.namesIn html = some names ∧ ∀ n ∈ names, n ∈ ownNames

def NoHeadingAttrs (given : List Event) : Prop :=
  ∀ level id classes attrs, .start (.heading level id classes attrs) ∈ given → attrs = []

lemma escapeChar_inert (c : Char) : Inert (escapeChar c) := by
  unfold escapeChar
  split_ifs
  case neg h1 h2 _ h4 _ _ =>
    intro d hd
    obtain rfl := List.mem_singleton.mp hd
    exact ⟨h4, h1, h2⟩
  all_goals decide

lemma escape_inert (s : Str) : Inert (escape s) := by
  intro c hc
  obtain ⟨d, _, hd⟩ := List.mem_flatMap.mp hc
  exact escapeChar_inert d c hd

open TagNames (Reads reads_nil reads_text reads_quoted)

lemma Span.reads {span : Span} (h : span.Inert) : Reads ownNames .data span.write .data := by
  cases span with
  | text s => exact reads_text (fun hlt => (h _ hlt).2.1 rfl)
  | opening classes =>
    have hopen : Reads ownNames .data "<span class=\"".toList (.attrs (.quoted '"' "class".toList [])) :=
      ⟨["span".toList], by decide, by decide⟩
    have hclose : Reads ownNames (.attrs (.quoted '"' "class".toList ([] ++ classes))) "\">".toList .data :=
      ⟨["class".toList], rfl, by decide⟩
    exact (hopen.append (reads_quoted (fun hquote => (h _ hquote).1 rfl))).append hclose
  | closing => exact ⟨["span".toList], by decide, by decide⟩

lemma reads_spans {spans : List Span} (h : ∀ span ∈ spans, span.Inert) :
    Reads ownNames .data (spans.flatMap Span.write) .data := by
  induction spans with
  | nil => exact reads_nil
  | cons span spans ih =>
    obtain ⟨hspan, hspans⟩ := List.forall_mem_cons.mp h
    exact (Span.reads hspan).append (ih hspans)

lemma reads_opening (lang : Option Str) :
    Reads ownNames .data ("<pre><code".toList ++ langClass lang ++ ">".toList) .data := by
  cases lang with
  | none => exact ⟨["pre".toList, "code".toList], by decide, by decide⟩
  | some lang =>
    have hname : Reads ownNames .data "<pre><code".toList (.tagName "code".toList) :=
      ⟨["pre".toList], by decide, by decide⟩
    have hopen : Reads ownNames (.tagName "code".toList) " class=\"language-".toList
        (.attrs (.quoted '"' "class".toList "language-".toList)) := ⟨["code".toList], by decide, by decide⟩
    have hquote : Reads ownNames (.attrs (.quoted '"' "class".toList ("language-".toList ++ escape lang)))
        "\"".toList (.attrs .beforeName) := ⟨["class".toList], rfl, by decide⟩
    have hlang := (hopen.append (reads_quoted (fun hmem => (escape_inert lang _ hmem).1 rfl))).append hquote
    have hclose : Reads ownNames (.attrs .beforeName) ">".toList .data := ⟨[], by decide, by decide⟩
    exact (hname.append hlang).append hclose

lemma codeBlockHtml_names (h : R.syntect.Classed) (code : Str) (lang : Option Str) :
    ∃ names, TagNames.namesIn (codeBlockHtml (R.highlight code lang) lang) = some names ∧
      ∀ n ∈ names, n ∈ ownNames := by
  have hhighlighted : Reads ownNames .data (R.highlight code lang) .data := by
    obtain ⟨spans, hwrite, hinert⟩ := h _ (linesWithEndings code)
    rw [Renderer.highlight, hwrite]
    exact reads_spans hinert
  have hclose : Reads ownNames .data "</code></pre>".toList .data :=
    ⟨["code".toList, "pre".toList], by decide, by decide⟩
  exact (((reads_opening lang).append hhighlighted).append hclose).namesIn

variable {R} {trusted}

lemma mapEvent_html {s : MapState} {e : Event} {html : Str} (h : (mapEvent R false s e).2 = .html html) :
    e = .stop .codeBlock ∧ OwnHtml R html := by
  cases e with
  | start tag => cases tag <;> cases h
  | stop tag =>
    cases tag with
    | codeBlock =>
      cases h
      exact ⟨rfl, s.currentCode, s.currentLang, rfl, fun l _ => escape_inert l⟩
    | _ => cases h
  | text text =>
    simp only [mapEvent] at h
    split at h <;> cases h
  | _ => cases h

lemma mapEvent_inlineHtml (s : MapState) (e : Event) (html : Str) :
    (mapEvent R false s e).2 ≠ .inlineHtml html := by
  intro h
  cases e with
  | start tag => cases tag <;> cases h
  | stop tag => cases tag <;> cases h
  | text text =>
    simp only [mapEvent] at h
    split at h <;> cases h
  | _ => cases h

lemma mapEvent_authoredNames (s : MapState) (e : Event) :
    (mapEvent R trusted s e).2.authoredNames = e.authoredNames := by
  cases e with
  | start tag => cases tag <;> rfl
  | stop tag => cases tag <;> rfl
  | text text =>
    simp only [mapEvent]
    split <;> rfl
  | html html => cases trusted <;> rfl
  | inlineHtml html => cases trusted <;> rfl
  | _ => rfl

def stateAfter (R : Renderer) (trusted : Bool) (s : MapState) (es : List Event) : MapState :=
  es.foldl (fun s e => (mapEvent R trusted s e).1) s

lemma mapEvents_getElem? (s : MapState) (es : List Event) (i : Nat) :
    (mapEvents R trusted s es)[i]? =
      es[i]?.map (fun e => (mapEvent R trusted (stateAfter R trusted s (es.take i)) e).2) := by
  induction es generalizing s i with
  | nil => rfl
  | cons e es ih =>
    cases i with
    | zero => rfl
    | succ i => simp only [mapEvents, List.getElem?_cons_succ, ih, List.take_succ_cons]; rfl

lemma mem_mapEvents {s : MapState} {es : List Event} {e : Event} (h : e ∈ mapEvents R trusted s es) :
    ∃ s', ∃ e' ∈ es, e = (mapEvent R trusted s' e').2 := by
  obtain ⟨i, hi⟩ := List.mem_iff_getElem?.mp h
  rw [mapEvents_getElem?, Option.map_eq_some_iff] at hi
  obtain ⟨e', he', rfl⟩ := hi
  exact ⟨_, e', List.mem_of_getElem? he', rfl⟩

lemma mapEvents_authoredNames (s : MapState) (es : List Event) :
    (mapEvents R trusted s es).map Event.authoredNames = es.map Event.authoredNames := by
  induction es generalizing s with
  | nil => rfl
  | cons e es ih => rw [mapEvents, List.map_cons, List.map_cons, ih, mapEvent_authoredNames]

lemma noHeadingAttrs_iff (es : List Event) :
    NoHeadingAttrs es ↔ ∀ e ∈ es, e.authoredNames = [] := by
  constructor
  · intro h e he
    cases e with
    | start tag =>
      cases tag with
      | heading level id classes attrs => simp [Event.authoredNames, h level id classes attrs he]
      | _ => rfl
    | _ => rfl
  · intro h level id classes attrs he
    simpa [Event.authoredNames] using h _ he

/-- The text inside a code block becomes one highlighted piece of HTML, in the language of its first word. -/
theorem mapEvents_codeBlock (s : MapState) (kind : CodeBlockKind) (texts : List Str) (rest : List Event) :
    mapEvents R trusted s (.start (.codeBlock kind) :: texts.map .text ++ .stop .codeBlock :: rest) =
      .text [] :: texts.map (fun _ => .text []) ++
        .html (codeBlockHtml (R.highlight texts.flatten (langOf kind)) (langOf kind)) ::
          mapEvents R trusted ⟨false, texts.flatten, langOf kind⟩ rest := by
  have htexts : ∀ code,
    mapEvents R trusted ⟨true, code, langOf kind⟩ (texts.map .text ++ .stop .codeBlock :: rest) =
      texts.map (fun _ => .text []) ++
        .html (codeBlockHtml (R.highlight (code ++ texts.flatten) (langOf kind)) (langOf kind)) ::
          mapEvents R trusted ⟨false, code ++ texts.flatten, langOf kind⟩ rest := by
    induction texts with
    | nil =>
      intro code
      rw [List.flatten_nil, List.append_nil]
      rfl
    | cons text texts ih =>
      intro code
      rw [List.flatten_cons, ← List.append_assoc]
      exact congrArg (Event.text [] :: ·) (ih (code ++ text))
  exact congrArg (Event.text [] :: ·) (htexts [])

theorem mapEvents_trusted {s : MapState} {es : List Event} (hs : s.inCodeBlock = false)
    (hes : ∀ e ∈ es, (∀ kind, e ≠ .start (.codeBlock kind)) ∧ e ≠ .stop .codeBlock) :
    mapEvents R true s es = es := by
  induction es with
  | nil => rfl
  | cons e es ih =>
    obtain ⟨hstart, hstop⟩ := hes e List.mem_cons_self
    have he : mapEvent R true s e = (s, e) := by
      cases e with
      | start tag =>
        cases tag with
        | codeBlock kind => exact absurd rfl (hstart kind)
        | _ => rfl
      | stop tag =>
        cases tag with
        | codeBlock => exact absurd rfl hstop
        | _ => rfl
      | text text => simp [mapEvent, hs]
      | _ => rfl
    rw [mapEvents, he, ih (fun e h => hes e (List.mem_cons_of_mem _ h))]

theorem untrusted_safe_iff (R : Renderer) (hclassed : R.syntect.Classed) (typeName : Value → Str)
    (markdown : Str) :
    run R typeName (.ok (.string markdown)) =
        .ok (.record [("__html".toList, .string (R.pushHtml (handed R false markdown)))]) ∧
      (Safe R (R.parse options markdown) (handed R false markdown) ↔
        NoHeadingAttrs (R.parse options markdown)) := by
  refine ⟨rfl, ?_⟩
  have hnames : (∀ e ∈ handed R false markdown, e.authoredNames = []) ↔
      ∀ e ∈ R.parse options markdown, e.authoredNames = [] := by
    have h : (mapEvents R false {} (R.parse options markdown)).map Event.authoredNames = _ :=
      mapEvents_authoredNames {} (R.parse options markdown)
    rw [← List.forall_mem_map (P := (· = [])), handed, h, List.forall_mem_map]
  rw [noHeadingAttrs_iff, ← hnames]
  refine ⟨Safe.noAuthored, fun h => ⟨fun i html hi => ?_, fun html hmem => ?_, h, fun html hmem => ?_⟩⟩
  · rw [handed, mapEvents_getElem?, Option.map_eq_some_iff] at hi
    obtain ⟨e, he, hhtml⟩ := hi
    obtain ⟨rfl, hown⟩ := mapEvent_html hhtml
    exact ⟨he, hown⟩
  · obtain ⟨s, e, _, he⟩ := mem_mapEvents hmem
    exact mapEvent_inlineHtml s e html he.symm
  · obtain ⟨s, e, _, he⟩ := mem_mapEvents hmem
    obtain ⟨_, code, lang, rfl, _⟩ := mapEvent_html he.symm
    exact codeBlockHtml_names R hclassed code lang

def plainSyntect : Syntect where
  Syntax := Unit
  Generator := List Span
  findSyntaxByToken _ := none
  findSyntaxByExtension _ := none
  findSyntaxPlainText := ()
  newWithClassStyle _ := []
  parseHtmlForLine spans line := spans ++ [.opening "text plain".toList, .text (escape line), .closing]
  finalize spans := spans.flatMap Span.write

lemma plainSyntect_classed : plainSyntect.Classed := by
  intro found lines
  refine ⟨lines.foldl plainSyntect.parseHtmlForLine [], rfl, ?_⟩
  refine List.foldlRecOn lines _ (motive := fun spans : List Span => ∀ span ∈ spans, span.Inert) nofun ?_
  intro spans hspans line _
  refine List.forall_mem_append.mpr ⟨hspans, ?_⟩
  have hclasses : Inert "text plain".toList := by decide
  simpa [Span.Inert, escape_inert line] using hclasses

def fenced : Renderer where
  parse _ _ :=
    [.start (.codeBlock (.fenced "\"><b>".toList)), .text "</code><b onclick=x>\n".toList, .stop .codeBlock]
  pushHtml _ := []
  syntect := plainSyntect

def fencedSource : Str := "```\"><b>\n</code><b onclick=x>\n```".toList

theorem untrusted_safe_fenced :
    Safe fenced (fenced.parse options fencedSource) (handed fenced false fencedSource) := by
  refine (untrusted_safe_iff fenced plainSyntect_classed (fun _ => []) fencedSource).2.mpr ?_
  intro level id classes attrs hmem
  simp [fenced] at hmem

def scripted : Renderer where
  parse _ _ :=
    [.start (.heading .h1 none [] [("onclick".toList, some "alert(1)".toList)]), .text "T".toList,
      .stop (.heading .h1)]
  pushHtml _ := []
  syntect := plainSyntect

def scriptedHeading : Str := "# T ".toList ++ braced "onclick=alert(1)".toList

theorem scripted_heading_passes :
    ¬ Safe scripted (scripted.parse options scriptedHeading) (handed scripted false scriptedHeading) := by
  intro h
  have hnames := h.noAuthored (.start (.heading .h1 none [] [("onclick".toList, some "alert(1)".toList)]))
    List.mem_cons_self
  exact absurd hnames (by decide)

end HttpNu.Commands.Md
