import HttpNu.Commands.Sse
import HttpNu.Library.Memo
import HttpNu.Library.Runs

/-! `.mj`, `.mj compile` and `.mj render`: templates rendered at once, or through a cache of environments. -/

namespace HttpNu.Commands.Templates

open Text Library

/-- A path as the pieces between its slashes. -/
abbrev Path := List Str

namespace Path

def ofStr (s : Str) : Path := s.splitOn '/'

def text (p : Path) : Str := ['/'].intercalate p

def isVoid (piece : Str) : Bool := piece = [] || piece = ".".toList

def components (p : Path) : List Str := p.filter (fun piece => !isVoid piece)

def isAbsolute (p : Path) : Bool := p.head? = some [] && 1 < p.length

def trimmed (p : Path) : Path := p.rdropWhile isVoid

def push (base pieces : Path) : Path := (if base.getLast? = some [] then base.dropLast else base) ++ pieces

def join (base p : Path) : Path := if p.isAbsolute then p else base.push p

def parent (p : Path) : Option Path :=
  if p.trimmed = [] then none
  else some (if trimmed p.trimmed.dropLast = [] then [[], []] else trimmed p.trimmed.dropLast)

def fileName (p : Path) : Option Str := p.trimmed.getLast?.filter (· ≠ "..".toList)

def endsAsDirectory (p : Path) : Bool := p.getLast?.all isVoid

lemma components_append (p q : Path) : components (p ++ q) = components p ++ components q := List.filter_append ..

lemma components_void {piece : Str} (h : isVoid piece = true) : components [piece] = [] := by
  simp [components, h]

lemma components_trimmed (p : Path) : components p.trimmed = p.components := by
  induction p using List.reverseRecOn with
  | nil => rfl
  | append_singleton p piece ih =>
    rw [trimmed, List.rdropWhile_concat]
    split
    · rename_i hvoid
      rw [← trimmed, ih, components_append, components_void hvoid, List.append_nil]
    · rfl

lemma components_push (base pieces : Path) :
    components (push base pieces) = components base ++ components pieces := by
  rw [push, components_append]
  split
  · rename_i hlast
    obtain ⟨front, rfl⟩ := List.getLast?_eq_some_iff.mp hlast
    rw [List.dropLast_concat, components_append front, components_void rfl, List.append_nil]
  · rfl

lemma components_push_parent (init : Path) {name : Str} (hname : isVoid name = false) :
    ∃ dir, parent (init ++ [name]) = some dir ∧
      components (push dir [name]) = components (init ++ [name]) := by
  have htrim : trimmed (init ++ [name]) = init ++ [name] := by
    rw [trimmed, List.rdropWhile_concat, hname]
    rfl
  have hparent : parent (init ++ [name]) = some (if trimmed init = [] then [[], []] else trimmed init) := by
    simp [parent, htrim]
  refine ⟨_, hparent, ?_⟩
  rw [components_push, components_append]
  congr 1
  split
  · rename_i hroot
    rw [← components_trimmed init, hroot]
    rfl
  · rw [components_trimmed]

end Path

structure ReadError where
  notFound : Bool
  text : Str

/-- The files by the components of their paths, and the errors of paths that only a directory can have. -/
structure Files where
  file : List Str → Except ReadError Str
  directory : List Str → ReadError

def readToString (files : Files) (p : Path) : Except ReadError Str :=
  if p.endsAsDirectory then .error (files.directory p.components) else files.file p.components

structure Frame where
  topic : Str
  content : Option Str

structure Sources where
  files : Files
  store : Option (List Frame)

/-- What lies outside the repository: the hash, the topic filter of the store, and the template engine, whose
rendering asks its environment for other templates by their names. -/
structure Host where
  cwd : Path
  hash : Bytes → Nat
  matchesTopic : Str → Str → Bool
  syntaxError : Str → Option Str
  templateNotFound : Str → Str
  couldNotRead : Str
  start : Str → Str → Json → Asking Str (Except Str Str) (Except Str Str)
  rendering : Rendering

inductive Loader where
  | unset
  | empty
  | path (dir : Path)
  | topics
  deriving DecidableEq

/-- `minijinja::Environment`: it keeps the templates it was given and those its loader has loaded. -/
structure Environment where
  loader : Loader
  templates : Memo Str Str

structure State where
  sources : Sources
  cache : Memo Nat Environment

variable (H : Host)

def isSafeSegment (segment : Str) : Bool := segment.head? ≠ some '.' && !segment.contains '\\'

def safeJoin (dir : Path) (name : Str) : Option Path :=
  if (Path.ofStr name).all isSafeSegment then some (dir.push (Path.ofStr name)) else none

def loadTopicContent (frames : List Frame) (topic : Str) : Option Str :=
  (frames.filter (fun f => H.matchesTopic topic f.topic)).getLast?.bind Frame.content

def load (sources : Sources) : Loader → Str → Except Str (Option Str)
  | .unset, _ => .ok none
  | .empty, _ => .ok none
  | .path dir, name =>
    match safeJoin dir name with
    | none => .ok none
    | some p =>
      match readToString sources.files p with
      | .ok source => .ok (some source)
      | .error err => if err.notFound then .ok none else .error H.couldNotRead
  | .topics, name => .ok (sources.store.bind (fun frames => loadTopicContent H frames name))

def fetch (sources : Sources) (loader : Loader) (name : Str) : Except Str Str :=
  match load H sources loader name with
  | .error err => .error err
  | .ok none => .error (H.templateNotFound name)
  | .ok (some source) =>
    match H.syntaxError source with
    | some err => .error err
    | none => .ok source

namespace Environment

def addTemplate (env : Environment) (name source : Str) : Except Str Environment :=
  match H.syntaxError source with
  | some err => .error err
  | none => .ok { env with templates := env.templates.keep name source }

def getTemplate (sources : Sources) (env : Environment) (name : Str) : Except Str Str × Environment :=
  let (source, templates) := env.templates.get (fetch H sources env.loader) name
  (source, { env with templates := templates })

def render (sources : Sources) (env : Environment) (name source : Str) (context : Json) :
    Except Str Str × Environment :=
  let (out, templates) := Memo.exec (fetch H sources env.loader) (H.start name source context) env.templates
  (out, { env with templates := templates })

end Environment

structure Args where
  file : Option Str
  inline : Option Str
  topic : Option Str

structure CompileArgs where
  file : Option Str
  inline : Option Value
  topic : Option Str

inductive Input where
  | value (v : Value)
  | empty
  | other

inductive Mode where
  | file (path : Str)
  | inline (source : Str)
  | topic (name : Str)

def noTemplate : ShellError :=
  .generic "No template specified".toList "provide a file path, --inline, or --topic".toList

def combinedModes : ShellError :=
  .generic "Cannot combine file, --inline, and --topic".toList
    "use exactly one of: file path, --inline, or --topic".toList

def storeRequired : ShellError :=
  .generic "--topic requires --store".toList "server must be started with --store to use --topic".toList

def topicNotFound (name : Str) : ShellError :=
  .generic ("Topic not found: ".toList ++ name) "no content in store for this topic".toList

def engineError (doing err : Str) : ShellError := .generic (doing ++ ": ".toList ++ err) err

def modeOf : Option Str → Option Str → Option Str → Except ShellError Mode
  | none, none, none => .error noTemplate
  | some path, none, none => .ok (.file path)
  | none, some source, none => .ok (.inline source)
  | none, none, some name => .ok (.topic name)
  | _, _, _ => .error combinedModes

/-- `nu_value_to_minijinja`, and the null of an empty input. -/
def contextOf : Input → Except ShellError Json
  | .value v => .ok (Sse.valueToJson H.rendering v)
  | .empty => .ok .null
  | .other => .error (.typeMismatch "expected record input".toList)

def absPath (path : Str) : Path :=
  if (Path.ofStr path).isAbsolute then Path.ofStr path else H.cwd.join (Path.ofStr path)

def mainName : Str := "template".toList

def dirLoader : Option Path → Loader
  | some dir => .path dir
  | none => .unset

def mjTemplate (sources : Sources) : Mode → Except ShellError (Environment × Str × Str)
  | .file path =>
    let name := (absPath H path).fileName.getD mainName
    match (Environment.mk (dirLoader (absPath H path).parent) .empty).getTemplate H sources name with
    | (.ok source, env) => .ok (env, name, source)
    | (.error err, _) => .error (engineError "Template error".toList err)
  | .topic name =>
    match sources.store with
    | none => .error storeRequired
    | some frames =>
      match loadTopicContent H frames name with
      | none => .error (topicNotFound name)
      | some source =>
        match (Environment.mk .topics .empty).addTemplate H name source with
        | .error err => .error (engineError "Template parse error".toList err)
        | .ok env =>
          match env.getTemplate H sources name with
          | (.ok source, env) => .ok (env, name, source)
          | (.error err, _) => .error (engineError "Template error".toList err)
  | .inline source =>
    match (Environment.mk .unset .empty).addTemplate H mainName source with
    | .error err => .error (engineError "Template parse error".toList err)
    | .ok env =>
      match env.getTemplate H sources mainName with
      | (.ok source, env) => .ok (env, mainName, source)
      | (.error err, _) => .error (engineError "Failed to get template".toList err)

def mj (sources : Sources) (args : Args) (input : Input) : Except ShellError Str := do
  let mode ← modeOf args.file args.inline args.topic
  let context ← contextOf H input
  let (env, name, source) ← mjTemplate H sources mode
  (env.render H sources name source context).1.mapError (engineError "Template render error".toList)

def hashSourceAndPath (source baseDir : Str) : Nat := H.hash (utf8 source ++ utf8 baseDir)

/-- A source that is in the cache with its directory is not compiled again. -/
def compileTemplateWithLoader (s : State) (source baseDir : Str) (loader : Loader) : State × Except Str Nat :=
  let hash := hashSourceAndPath H source baseDir
  if (s.cache.find hash).isSome then (s, .ok hash)
  else
    match (Environment.mk loader .empty).addTemplate H mainName source with
    | .error err => (s, .error err)
    | .ok env => ({ s with cache := s.cache.keep hash env }, .ok hash)

def inlineStr : Option Value → Except ShellError (Option Str)
  | none => .ok none
  | some (.string val) => .ok (some val)
  | some (.record val) =>
    match Record.get val "__html".toList with
    | some (.string html) => .ok (some html)
    | some _ => .error (.generic "__html must be a string".toList "expected string value".toList)
    | none => .error (.generic "Record must have __html field".toList
        ("expected ".toList ++ braced "__html: string".toList))
  | some _ => .error (.generic ("--inline must be string or ".toList ++ braced "__html: string".toList)
      "invalid type".toList)

def compileSource (sources : Sources) : Mode → Except ShellError (Str × Str × Loader)
  | .file path =>
    let baseDir := (absPath H path).parent.getD (absPath H path)
    match readToString sources.files (absPath H path) with
    | .ok source => .ok (source, baseDir.text, .path baseDir)
    | .error err =>
      .error (.generic ("Failed to read template file: ".toList ++ err.text) "could not read file".toList)
  | .topic name =>
    match sources.store with
    | none => .error storeRequired
    | some frames =>
      match loadTopicContent H frames name with
      | none => .error (topicNotFound name)
      | some source => .ok (source, "__topic__/".toList ++ name, .topics)
  | .inline source => .ok (source, "__inline__".toList, .empty)

def compiledTemplate (hash : Nat) : Value := .custom "CompiledTemplate".toList hash

def compile (s : State) (args : CompileArgs) : State × Except ShellError Value :=
  match (do compileSource H s.sources (← modeOf args.file (← inlineStr args.inline) args.topic)) with
  | .error err => (s, .error err)
  | .ok (source, baseDir, loader) =>
    match compileTemplateWithLoader H s source baseDir loader with
    | (s, .ok hash) => (s, .ok (compiledTemplate hash))
    | (s, .error err) => (s, .error (engineError "Template compile error".toList err))

def compiledHash : Value → Except ShellError Nat
  | .custom typeName hash =>
    if typeName = "CompiledTemplate".toList then .ok hash
    else .error (.typeMismatch "expected CompiledTemplate".toList)
  | _ => .error (.typeMismatch "expected CompiledTemplate from '.mj compile'".toList)

/-- `CompiledTemplate::render`: the environment of the cache keeps what the rendering loads. -/
def renderCompiled (s : State) (hash : Nat) (env : Environment) (context : Json) : State × Except Str Str :=
  match env.getTemplate H s.sources mainName with
  | (.error err, env) => ({ s with cache := s.cache.keep hash env }, .error err)
  | (.ok source, env) =>
    let (out, env) := env.render H s.sources mainName source context
    ({ s with cache := s.cache.keep hash env }, out)

/-- `.mj render`; `none` where the code panics, the template not being in the cache. -/
def render (s : State) (template : Value) (input : Input) : State × Option (Except ShellError Str) :=
  match (do return (← compiledHash template, ← contextOf H input)) with
  | .error err => (s, some (.error err))
  | .ok (hash, context) =>
    match s.cache.find hash with
    | none => (s, none)
    | some env =>
      let (s, out) := renderCompiled H s hash env context
      (s, some (out.mapError (engineError "Template render error".toList)))

inductive Act where
  | edit (files : Files)
  | append (frame : Frame)
  | mj (args : Args) (input : Input)
  | compile (args : CompileArgs)
  | render (template : Value) (input : Input)

def init (files : Files) (store : Option (List Frame)) : State := ⟨⟨files, store⟩, .empty⟩

def Act.sources (sources : Sources) : Act → Sources
  | .edit files => { sources with files := files }
  | .append frame => { sources with store := sources.store.map (· ++ [frame]) }
  | _ => sources

def step (s : State) : Act → Option State
  | .edit files => some { s with sources := (Act.edit files).sources s.sources }
  | .append frame => some { s with sources := (Act.append frame).sources s.sources }
  | .mj _ _ => some s
  | .compile args => some (compile H s args).1
  | .render template input => some (render H s template input).1

/-- The same template for `.mj compile`, an inline one as a string or as an `__html` record. -/
def Args.toCompile (args : Args) (asHtml : Bool) : CompileArgs where
  file := args.file
  inline := args.inline.map (fun source =>
    if asHtml then .record [("__html".toList, .string source)] else .string source)
  topic := args.topic

def compileThenRender (s : State) (args : CompileArgs) (input : Input) : Option Str :=
  match compile H s args with
  | (_, .error _) => none
  | (s, .ok template) => (render H s template input).2.bind Except.toOption

end HttpNu.Commands.Templates
