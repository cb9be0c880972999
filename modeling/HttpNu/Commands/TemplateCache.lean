import HttpNu.Commands.Templates

/-! When the cache of compiled templates shows: a compiled template against one rendered at once. -/

namespace HttpNu.Commands.Templates

open Text Library

variable (H : Host)

/-- The key of the template is free, or taken by the same source with the same loader. -/
def EntryOk (s : State) (source baseDir : Str) (loader : Loader) : Prop :=
  ∀ env, s.cache.find (hashSourceAndPath H source baseDir) = some env →
    env.templates.find mainName = some source ∧ env.loader = loader

/-- The environment that the compiled template is rendered in: the one under its key, or a new one. -/
def environmentOf (s : State) (source baseDir : Str) (loader : Loader) : Environment :=
  (s.cache.find (hashSourceAndPath H source baseDir)).getD ⟨loader, Memo.empty.keep mainName source⟩

/-- That environment has the source, and whatever the rendering asks it for it answers as it is answered `now`. -/
structure EntryServes (s : State) (source baseDir : Str) (loader : Loader) (now : Str → Except Str Str)
    (context : Json) : Prop where
  main : (environmentOf H s source baseDir loader).templates.find mainName = some source
  asked : H.syntaxError source = none → ∀ name, (H.start mainName source context).Asks now name →
    ((environmentOf H s source baseDir loader).getTemplate H s.sources name).1 = now name

/-- With the templates as they are `now`, the source gives under this name what it gives under that of
compiling. -/
def NameFree (name source : Str) (now : Str → Except Str Str) (context : Json) : Prop :=
  ((H.start name source context).run now).toOption = ((H.start mainName source context).run now).toOption

/-- The file that the path leads to is the one that its directory has under its name. -/
def SameFile (sources : Sources) (path : Str) : Prop :=
  ∀ source, fetch H sources (dirLoader (absPath H path).parent) ((absPath H path).fileName.getD mainName) =
      .ok source ↔ readToString sources.files (absPath H path) = .ok source ∧ H.syntaxError source = none

def ModeOk (s : State) (context : Json) : Mode → Prop
  | .file path =>
    SameFile H s.sources path ∧ ∀ source, readToString s.sources.files (absPath H path) = .ok source →
      EntryServes H s source ((absPath H path).parent.getD (absPath H path)).text
          (.path ((absPath H path).parent.getD (absPath H path)))
          (fetch H s.sources (dirLoader (absPath H path).parent)) context ∧
        (H.syntaxError source = none → NameFree H ((absPath H path).fileName.getD mainName) source
          (fetch H s.sources (dirLoader (absPath H path).parent)) context)
  | .topic name => ∀ source, s.sources.store.bind (fun frames => loadTopicContent H frames name) = some source →
    EntryServes H s source ("__topic__/".toList ++ name) .topics (fetch H s.sources .topics) context ∧
      (H.syntaxError source = none → NameFree H name source (fetch H s.sources .topics) context)
  | .inline source =>
    EntryServes H s source "__inline__".toList .empty
      (Memo.view (fetch H s.sources .unset) (Memo.empty.keep mainName source)) context

def CallOk (s : State) (args : Args) (input : Input) : Prop :=
  ∀ mode context, modeOf args.file args.inline args.topic = .ok mode → contextOf H input = .ok context →
    ModeOk H s context mode

structure Lasting (sources : Sources) (P : Environment → Prop) : Prop where
  new : ∀ loader source, H.syntaxError source = none → P ⟨loader, Memo.empty.keep mainName source⟩
  getTemplate : ∀ env name, P env → P (env.getTemplate H sources name).2
  render : ∀ env name source context, P env → P (env.render H sources name source context).2

def AllCached (P : Environment → Prop) (s : State) : Prop := ∀ hash env, s.cache.find hash = some env → P env

def Parsed (env : Environment) : Prop :=
  ∃ source, env.templates.find mainName = some source ∧ H.syntaxError source = none

/-- Every template but the main one is what the loader would give. -/
def Current (sources : Sources) (env : Environment) : Prop :=
  Memo.Fresh (fetch H sources env.loader) mainName env.templates

/-- An edit that leaves every template which a cached environment has loaded as its loader would give it. -/
def LeavesKept (s : State) (a : Act) : Prop :=
  match a with
  | .edit _ | .append _ => AllCached (Current H (a.sources s.sources)) s
  | _ => True

variable {H} {s : State} {sources : Sources} {env : Environment} {P : Environment → Prop}

lemma addTemplate_ok {name source : Str} (h : H.syntaxError source = none) :
    env.addTemplate H name source = .ok { env with templates := env.templates.keep name source } := by
  simp only [Environment.addTemplate, h]

lemma getTemplate_of_find {name source : Str} (h : env.templates.find name = some source) :
    env.getTemplate H sources name = (.ok source, env) := by
  simp only [Environment.getTemplate, Memo.get, h]

lemma getTemplate_new (loader : Loader) (name source : Str) :
    (Environment.mk loader (Memo.empty.keep name source)).getTemplate H sources name =
      (.ok source, ⟨loader, Memo.empty.keep name source⟩) :=
  getTemplate_of_find (Memo.find_keep_self _ _ _)

lemma parsed_lasting (sources : Sources) : Lasting H sources (Parsed H) where
  new _ source h := ⟨source, Memo.find_keep_self _ _ _, h⟩
  getTemplate _ name := fun ⟨source, hfind, hparse⟩ => ⟨source, Memo.find_get hfind name, hparse⟩
  render _ _ _ _ := fun ⟨source, hfind, hparse⟩ => ⟨source, Memo.find_exec _ hfind, hparse⟩

lemma current_lasting (sources : Sources) : Lasting H sources (Current H sources) where
  new _ _ _ := Memo.fresh_keep_empty _ _
  getTemplate _ name h := h.get name
  render _ _ _ _ h := h.exec _

lemma AllCached.keep (h : AllCached P s) (henv : P env) (hash : Nat) :
    AllCached P { s with cache := s.cache.keep hash env } := by
  intro key env' hfind
  by_cases hkey : key = hash
  · rw [hkey, Memo.find_keep_self] at hfind
    exact Option.some.inj hfind ▸ henv
  · rw [Memo.find_keep_ne _ hkey] at hfind
    exact h key env' hfind

lemma compileTemplate_cached (hP : Lasting H s.sources P) (h : AllCached P s) (source baseDir : Str)
    (loader : Loader) : AllCached P (compileTemplateWithLoader H s source baseDir loader).1 := by
  simp only [compileTemplateWithLoader]
  split
  · exact h
  · cases hparse : H.syntaxError source with
    | some err => simpa only [Environment.addTemplate, hparse] using h
    | none =>
      rw [addTemplate_ok hparse]
      exact h.keep (hP.new loader source hparse) _

lemma compile_cached (hP : Lasting H s.sources P) (h : AllCached P s) (args : CompileArgs) :
    AllCached P (compile H s args).1 := by
  simp only [compile]
  split
  · exact h
  · rename_i source baseDir loader _
    have hc := compileTemplate_cached hP h source baseDir loader
    split <;> rename_i hs <;> rw [hs] at hc <;> exact hc

lemma renderCompiled_cached (hP : Lasting H s.sources P) (h : AllCached P s) {hash : Nat}
    (hfind : s.cache.find hash = some env) (context : Json) :
    AllCached P (renderCompiled H s hash env context).1 := by
  have hget := hP.getTemplate env mainName (h hash env hfind)
  simp only [renderCompiled]
  split
  · rename_i hg
    rw [hg] at hget
    exact h.keep hget _
  · rename_i source env' hg
    rw [hg] at hget
    exact h.keep (hP.render env' mainName source context hget) _

lemma render_cached (hP : Lasting H s.sources P) (h : AllCached P s) (template : Value) (input : Input) :
    AllCached P (render H s template input).1 := by
  simp only [render]
  split
  · exact h
  · split
    · exact h
    · rename_i hfind
      exact renderCompiled_cached hP h hfind _

lemma step_cached {a : Act} {s' : State} (hP : Lasting H s.sources P) (h : AllCached P s)
    (hs : step H s a = some s') : AllCached P s' := by
  cases a with
  | edit files =>
    obtain rfl := Option.some.inj hs
    exact h
  | append frame =>
    obtain rfl := Option.some.inj hs
    exact h
  | mj args input =>
    obtain rfl := Option.some.inj hs
    exact h
  | compile args =>
    obtain rfl := Option.some.inj hs
    exact compile_cached hP h args
  | render template input =>
    obtain rfl := Option.some.inj hs
    exact render_cached hP h template input

lemma parsed_run {files : Files} {store : Option (List Frame)} {acts : List Act}
    (h : run (step H) (init files store) acts = some s) : AllCached (Parsed H) s :=
  run_invariant (fun s _ _ hs => step_cached (parsed_lasting s.sources) hs) (fun _ _ hfind => by cases hfind) h

lemma compileTemplate_sources (s : State) (source baseDir : Str) (loader : Loader) :
    (compileTemplateWithLoader H s source baseDir loader).1.sources = s.sources := by
  simp only [compileTemplateWithLoader]
  split
  · rfl
  · split <;> rfl

lemma step_sources {a : Act} {s' : State} (hs : step H s a = some s') : s'.sources = a.sources s.sources := by
  cases a with
  | compile args =>
    obtain rfl := Option.some.inj hs
    simp only [compile, Act.sources]
    split
    · rfl
    · rename_i source baseDir loader _
      have hc := compileTemplate_sources (H := H) s source baseDir loader
      split <;> rename_i hs <;> rw [hs] at hc <;> exact hc
  | render template input =>
    obtain rfl := Option.some.inj hs
    simp only [render, renderCompiled, Act.sources]
    split
    · rfl
    · split
      · rfl
      · split <;> rfl
  | edit files =>
    obtain rfl := Option.some.inj hs
    rfl
  | append frame =>
    obtain rfl := Option.some.inj hs
    rfl
  | mj args input =>
    obtain rfl := Option.some.inj hs
    rfl

lemma current_step (s : State) (a : Act) (s' : State) (ha : LeavesKept H s a)
    (h : AllCached (Current H s.sources) s) (hs : step H s a = some s') : AllCached (Current H s'.sources) s' := by
  rw [step_sources hs]
  cases a with
  | edit files =>
    obtain rfl := Option.some.inj hs
    exact ha
  | append frame =>
    obtain rfl := Option.some.inj hs
    exact ha
  | _ => exact step_cached (current_lasting s.sources) h hs

lemma current_run {files : Files} {store : Option (List Frame)} {acts : List Act}
    (h : run (step H) (init files store) acts = some s)
    (hacts : Permitted (step H) (LeavesKept H) (init files store) acts) : AllCached (Current H s.sources) s :=
  run_invariant_of current_step hacts (fun _ _ hfind => by cases hfind) h

lemma environmentOf_main {source baseDir : Str} {loader : Loader} (h : EntryOk H s source baseDir loader) :
    (environmentOf H s source baseDir loader).templates.find mainName = some source := by
  rw [environmentOf]
  cases hfind : s.cache.find (hashSourceAndPath H source baseDir) with
  | none => exact Memo.find_keep_self _ _ _
  | some env => exact (h env hfind).1

lemma compileTemplate_ok (s : State) {source : Str} (baseDir : Str) (loader : Loader)
    (hparse : H.syntaxError source = none) :
    ∃ s', compileTemplateWithLoader H s source baseDir loader = (s', .ok (hashSourceAndPath H source baseDir)) ∧
      s'.sources = s.sources ∧
      s'.cache.find (hashSourceAndPath H source baseDir) = some (environmentOf H s source baseDir loader) := by
  simp only [compileTemplateWithLoader, environmentOf]
  cases hfind : s.cache.find (hashSourceAndPath H source baseDir) with
  | some env => exact ⟨s, rfl, rfl, hfind⟩
  | none =>
    rw [addTemplate_ok hparse]
    exact ⟨_, rfl, rfl, Memo.find_keep_self _ _ _⟩

lemma compileTemplate_error (h : AllCached (Parsed H) s) {source baseDir err : Str} {loader : Loader}
    (hmain : (environmentOf H s source baseDir loader).templates.find mainName = some source)
    (hparse : H.syntaxError source = some err) :
    compileTemplateWithLoader H s source baseDir loader = (s, .error err) := by
  simp only [compileTemplateWithLoader]
  cases hfind : s.cache.find (hashSourceAndPath H source baseDir) with
  | some env =>
    obtain ⟨main, hfound, hnone⟩ := h _ env hfind
    rw [environmentOf, hfind, Option.getD_some, hfound] at hmain
    rw [Option.some.inj hmain, hparse] at hnone
    cases hnone
  | none => simp only [Environment.addTemplate, hparse]; rfl

lemma renderCompiled_snd {source : Str} (hmain : env.templates.find mainName = some source) (hash : Nat)
    (context : Json) : (renderCompiled H s hash env context).2 =
      (H.start mainName source context).run (env.templates.view (fetch H s.sources env.loader)) := by
  simp only [renderCompiled, getTemplate_of_find hmain, Environment.render, Memo.exec_fst]

lemma render_compiledTemplate {hash : Nat} (hfind : s.cache.find hash = some env) {input : Input} {context : Json}
    (hcontext : contextOf H input = .ok context) :
    (render H s (compiledTemplate hash) input).2 =
      some ((renderCompiled H s hash env context).2.mapError (engineError "Template render error".toList)) := by
  simp only [render, compiledTemplate, compiledHash, if_true, hcontext, bind, Except.bind, pure,
    Except.pure, hfind]

lemma toOption_mapError {α : Type} (f : Str → ShellError) (r : Except Str α) :
    (r.mapError f).toOption = r.toOption := by
  cases r <;> rfl

@[simp] lemma inlineStr_toCompile (args : Args) (asHtml : Bool) :
    inlineStr (args.toCompile asHtml).inline = .ok args.inline := by
  obtain ⟨file, inline, topic⟩ := args
  cases inline with
  | none => rfl
  | some source => cases asHtml <;> rfl

lemma compileThenRender_eq {args : Args} {input : Input} {mode : Mode} {context : Json} {source baseDir : Str}
    {loader : Loader} {now : Str → Except Str Str} (asHtml : Bool)
    (hmode : modeOf args.file args.inline args.topic = .ok mode) (hcontext : contextOf H input = .ok context)
    (hsource : compileSource H s.sources mode = .ok (source, baseDir, loader))
    (hentry : EntryServes H s source baseDir loader now context) (hparse : H.syntaxError source = none) :
    compileThenRender H s (args.toCompile asHtml) input =
      ((H.start mainName source context).run now).toOption := by
  obtain ⟨s', hcompile, hsources, hfind⟩ := compileTemplate_ok s baseDir loader hparse
  have hout : compileThenRender H s (args.toCompile asHtml) input =
      (render H s' (compiledTemplate (hashSourceAndPath H source baseDir)) input).2.bind Except.toOption := by
    simp only [compileThenRender, compile, inlineStr_toCompile, bind, Except.bind]
    simp only [Args.toCompile, hmode, hsource, hcompile]
  have hanswers : (H.start mainName source context).run now = (H.start mainName source context).run
      ((environmentOf H s source baseDir loader).templates.view
        (fetch H s.sources (environmentOf H s source baseDir loader).loader)) :=
    Asking.run_congr (fun name hasks => (hentry.asked hparse name hasks).symm.trans (Memo.get_fst name))
  rw [hout, render_compiledTemplate hfind hcontext, Option.bind_some, toOption_mapError,
    renderCompiled_snd hentry.main, hsources, hanswers]

lemma compileThenRender_none (h : AllCached (Parsed H) s) {args : Args} {input : Input} {mode : Mode}
    {err source baseDir : Str}
    {loader : Loader} (asHtml : Bool) (hmode : modeOf args.file args.inline args.topic = .ok mode)
    (hsource : compileSource H s.sources mode = .ok (source, baseDir, loader))
    (hmain : (environmentOf H s source baseDir loader).templates.find mainName = some source)
    (hparse : H.syntaxError source = some err) :
    compileThenRender H s (args.toCompile asHtml) input = none := by
  simp only [compileThenRender, compile, inlineStr_toCompile, bind, Except.bind]
  simp only [Args.toCompile, hmode, hsource, compileTemplate_error h hmain hparse]

lemma compileThenRender_unread {args : Args} {input : Input} {mode : Mode} {err : ShellError} (asHtml : Bool)
    (hmode : modeOf args.file args.inline args.topic = .ok mode)
    (hsource : compileSource H s.sources mode = .error err) :
    compileThenRender H s (args.toCompile asHtml) input = none := by
  simp only [compileThenRender, compile, inlineStr_toCompile, bind, Except.bind]
  simp only [Args.toCompile, hmode, hsource]

lemma compileThenRender_badInput {args : CompileArgs} {input : Input} {err : ShellError}
    (hcontext : contextOf H input = .error err) : compileThenRender H s args input = none := by
  simp only [compileThenRender]
  split
  · rfl
  · rename_i s' template _
    simp only [render, hcontext, bind, Except.bind]
    cases compiledHash template <;> rfl

lemma mj_eq {args : Args} {input : Input} {mode : Mode} {context : Json} {name source : Str}
    (hmode : modeOf args.file args.inline args.topic = .ok mode) (hcontext : contextOf H input = .ok context)
    (htemplate : mjTemplate H sources mode = .ok (env, name, source)) :
    (mj H sources args input).toOption =
      ((H.start name source context).run (env.templates.view (fetch H sources env.loader))).toOption := by
  simp only [mj, hmode, hcontext, htemplate, bind, Except.bind, toOption_mapError, Environment.render,
    Memo.exec_fst]

lemma mj_none {args : Args} {input : Input} {mode : Mode} {context : Json} {err : ShellError}
    (hmode : modeOf args.file args.inline args.topic = .ok mode) (hcontext : contextOf H input = .ok context)
    (htemplate : mjTemplate H sources mode = .error err) : (mj H sources args input).toOption = none := by
  simp only [mj, hmode, hcontext, htemplate, bind, Except.bind]
  rfl

lemma fetch_ok_iff {loader : Loader} {name source : Str} :
    fetch H sources loader name = .ok source ↔
      load H sources loader name = .ok (some source) ∧ H.syntaxError source = none := by
  rw [fetch]
  split
  · rename_i hload
    simp [hload]
  · rename_i hload
    simp [hload]
  · rename_i found hload
    rw [hload]
    cases hparse : H.syntaxError found with
    | some err =>
      simp only [reduceCtorEq, false_iff, Except.ok.injEq, Option.some.injEq, not_and]
      rintro rfl
      simp [hparse]
    | none =>
      simp only [Except.ok.injEq, Option.some.injEq]
      exact ⟨fun h => ⟨h, h ▸ hparse⟩, And.left⟩

lemma mjTemplate_file_error {sources : Sources} {path err : Str}
    (hfetch : fetch H sources (dirLoader (absPath H path).parent) ((absPath H path).fileName.getD mainName) =
      .error err) :
    mjTemplate H sources (.file path) = .error (engineError "Template error".toList err) := by
  simp only [mjTemplate, Environment.getTemplate, Memo.get, Memo.find_empty, hfetch]

lemma mjTemplate_file_ok {sources : Sources} {path source : Str}
    (hfetch : fetch H sources (dirLoader (absPath H path).parent) ((absPath H path).fileName.getD mainName) =
      .ok source) :
    mjTemplate H sources (.file path) = .ok
      (⟨dirLoader (absPath H path).parent, (Memo.empty.get (fetch H sources (dirLoader (absPath H path).parent))
        ((absPath H path).fileName.getD mainName)).2⟩, (absPath H path).fileName.getD mainName, source) := by
  simp only [mjTemplate, Environment.getTemplate, Memo.get, Memo.find_empty, hfetch]

lemma agrees_file (h : AllCached (Parsed H) s) {args : Args} {input : Input} {path : Str} {context : Json}
    (asHtml : Bool)
    (hmode : modeOf args.file args.inline args.topic = .ok (.file path))
    (hcontext : contextOf H input = .ok context)
    (hok : ModeOk H s context (.file path)) :
    compileThenRender H s (args.toCompile asHtml) input = (mj H s.sources args input).toOption := by
  obtain ⟨hsame, hread⟩ := hok
  have hfails : ∀ err, fetch H s.sources (dirLoader (absPath H path).parent)
      ((absPath H path).fileName.getD mainName) = .error err → (mj H s.sources args input).toOption = none := by
    intro err hfetch
    exact mj_none hmode hcontext (mjTemplate_file_error hfetch)
  cases hr : readToString s.sources.files (absPath H path) with
  | error err =>
    rw [compileThenRender_unread asHtml hmode (by simp only [compileSource, hr]; rfl)]
    cases hfetch : fetch H s.sources (dirLoader (absPath H path).parent)
      ((absPath H path).fileName.getD mainName) with
    | error err => exact (hfails err hfetch).symm
    | ok source =>
      obtain ⟨hok, _⟩ := (hsame source).mp hfetch
      simp [hr] at hok
  | ok source =>
    obtain ⟨hentry, hfree⟩ := hread source hr
    have hsource : compileSource H s.sources (.file path) = .ok (source,
        ((absPath H path).parent.getD (absPath H path)).text,
        .path ((absPath H path).parent.getD (absPath H path))) := by
      simp only [compileSource, hr]
    cases hparse : H.syntaxError source with
    | some err =>
      rw [compileThenRender_none h asHtml hmode hsource hentry.main hparse]
      cases hfetch : fetch H s.sources (dirLoader (absPath H path).parent)
        ((absPath H path).fileName.getD mainName) with
      | error err => exact (hfails err hfetch).symm
      | ok other =>
        obtain ⟨hother, hnone⟩ := (hsame other).mp hfetch
        rw [hr] at hother
        rw [Except.ok.inj hother, hnone] at hparse
        cases hparse
    | none =>
      have hfetch := (hsame source).mpr ⟨hr, hparse⟩
      rw [compileThenRender_eq asHtml hmode hcontext hsource hentry hparse,
        mj_eq hmode hcontext (mjTemplate_file_ok hfetch), Memo.view_get]
      exact (hfree hparse).symm

lemma agrees_topic (h : AllCached (Parsed H) s) {args : Args} {input : Input} {name : Str} {context : Json}
    (asHtml : Bool)
    (hmode : modeOf args.file args.inline args.topic = .ok (.topic name))
    (hcontext : contextOf H input = .ok context)
    (hok : ModeOk H s context (.topic name)) :
    compileThenRender H s (args.toCompile asHtml) input = (mj H s.sources args input).toOption := by
  cases hstore : s.sources.store with
  | none =>
    have hsource : compileSource H s.sources (.topic name) = .error storeRequired := by
      simp only [compileSource, hstore]
    have htemplate : mjTemplate H s.sources (.topic name) = .error storeRequired := by
      simp only [mjTemplate, hstore]
    rw [compileThenRender_unread asHtml hmode hsource, mj_none hmode hcontext htemplate]
  | some frames =>
    cases hcontent : loadTopicContent H frames name with
    | none =>
      have hsource : compileSource H s.sources (.topic name) = .error (topicNotFound name) := by
        simp only [compileSource, hstore, hcontent]
      have htemplate : mjTemplate H s.sources (.topic name) = .error (topicNotFound name) := by
        simp only [mjTemplate, hstore, hcontent]
      rw [compileThenRender_unread asHtml hmode hsource, mj_none hmode hcontext htemplate]
    | some source =>
      obtain ⟨hentry, hfree⟩ := hok source (by rw [hstore, Option.bind_some, hcontent])
      have hsource : compileSource H s.sources (.topic name) =
          .ok (source, "__topic__/".toList ++ name, .topics) := by
        simp only [compileSource, hstore, hcontent]
      cases hparse : H.syntaxError source with
      | some err =>
        have htemplate : mjTemplate H s.sources (.topic name) =
            .error (engineError "Template parse error".toList err) := by
          simp only [mjTemplate, hstore, hcontent, Environment.addTemplate, hparse]
        rw [compileThenRender_none h asHtml hmode hsource hentry.main hparse, mj_none hmode hcontext htemplate]
      | none =>
        have hload : load H s.sources .topics name = .ok (some source) := by
          simp only [load, hstore, Option.bind_some, hcontent]
        have hview : Memo.view (fetch H s.sources .topics) (Memo.empty.keep name source) =
            fetch H s.sources .topics := by
          funext k
          by_cases hk : k = name
          · rw [hk, Memo.view_of_find (Memo.find_keep_self _ _ _), fetch_ok_iff.mpr ⟨hload, hparse⟩]
          · rw [Memo.view, Memo.find_keep_ne _ hk, Memo.find_empty]
        have htemplate : mjTemplate H s.sources (.topic name) =
            .ok (⟨.topics, Memo.empty.keep name source⟩, name, source) := by
          simp only [mjTemplate, hstore, hcontent, addTemplate_ok hparse, getTemplate_new]
        rw [compileThenRender_eq asHtml hmode hcontext hsource hentry hparse,
          mj_eq hmode hcontext htemplate, hview]
        exact (hfree hparse).symm

lemma agrees_inline (h : AllCached (Parsed H) s) {args : Args} {input : Input} {source : Str} {context : Json}
    (asHtml : Bool)
    (hmode : modeOf args.file args.inline args.topic = .ok (.inline source))
    (hcontext : contextOf H input = .ok context) (hok : ModeOk H s context (.inline source)) :
    compileThenRender H s (args.toCompile asHtml) input = (mj H s.sources args input).toOption := by
  have hsource : compileSource H s.sources (.inline source) = .ok (source, "__inline__".toList, .empty) := rfl
  cases hparse : H.syntaxError source with
  | some err =>
    have htemplate : mjTemplate H s.sources (.inline source) =
        .error (engineError "Template parse error".toList err) := by
      simp only [mjTemplate, Environment.addTemplate, hparse]
    rw [compileThenRender_none h asHtml hmode hsource hok.main hparse, mj_none hmode hcontext htemplate]
  | none =>
    have htemplate : mjTemplate H s.sources (.inline source) =
        .ok (⟨.unset, Memo.empty.keep mainName source⟩, mainName, source) := by
      simp only [mjTemplate, addTemplate_ok hparse, getTemplate_new]
    rw [compileThenRender_eq asHtml hmode hcontext hsource hok hparse, mj_eq hmode hcontext htemplate]

/-- After every run, whatever was edited in it: a template whose rendering is served as it would be now gives,
compiled and rendered now, what `.mj` gives now. -/
theorem compileThenRender_agrees {files : Files} {store : Option (List Frame)} {acts : List Act}
    (hrun : run (step H) (init files store) acts = some s) (args : Args) (asHtml : Bool) (input : Input)
    (hcall : CallOk H s args input) :
    compileThenRender H s (args.toCompile asHtml) input = (mj H s.sources args input).toOption := by
  have hparsed := parsed_run hrun
  cases hmode : modeOf args.file args.inline args.topic with
  | error err =>
    simp only [compileThenRender, compile, inlineStr_toCompile, mj, bind, Except.bind]
    simp only [Args.toCompile, hmode]
    rfl
  | ok mode =>
    cases hcontext : contextOf H input with
    | error err =>
      rw [compileThenRender_badInput hcontext]
      simp only [mj, hmode, hcontext, bind, Except.bind]
      rfl
    | ok context =>
      have hok := hcall mode context hmode hcontext
      cases mode with
      | file path => exact agrees_file hparsed asHtml hmode hcontext hok
      | inline source => exact agrees_inline hparsed asHtml hmode hcontext hok
      | topic name => exact agrees_topic hparsed asHtml hmode hcontext hok

theorem entryServes_of_leavesKept {files : Files} {store : Option (List Frame)} {acts : List Act}
    (hrun : run (step H) (init files store) acts = some s)
    (hacts : Permitted (step H) (LeavesKept H) (init files store) acts) {source baseDir : Str} {loader : Loader}
    (hentry : EntryOk H s source baseDir loader) {now : Str → Except Str Str} {context : Json}
    (hmain : (H.start mainName source context).Asks now mainName → now mainName = .ok source)
    (hnow : ∀ name, name ≠ mainName → now name = fetch H s.sources loader name) :
    EntryServes H s source baseDir loader now context := by
  have hown := environmentOf_main hentry
  have hloader : (environmentOf H s source baseDir loader).loader = loader ∧
      Current H s.sources (environmentOf H s source baseDir loader) := by
    rw [environmentOf]
    cases hfind : s.cache.find (hashSourceAndPath H source baseDir) with
    | none => exact ⟨rfl, Memo.fresh_keep_empty _ _⟩
    | some env => exact ⟨(hentry env hfind).2, current_run hrun hacts _ env hfind⟩
  refine ⟨hown, fun _ name hasks => ?_⟩
  rw [Environment.getTemplate, Memo.get_fst]
  by_cases hname : name = mainName
  · rw [hname, Memo.view_of_find hown, hmain (hname ▸ hasks)]
  · rw [hloader.2.view hname, hloader.1, hnow name hname]

lemma absPath_concat {path name : Str} (h : (Path.ofStr path).getLast? = some name) :
    ∃ init, absPath H path = init ++ [name] := by
  obtain ⟨front, hfront⟩ := List.getLast?_eq_some_iff.mp h
  rw [absPath]
  split
  · exact ⟨front, hfront⟩
  · rename_i habs
    rw [Path.join, if_neg habs, Path.push, hfront, ← List.append_assoc]
    exact ⟨_, rfl⟩

lemma sameFile_of_name {path name : Str} (hlast : (Path.ofStr path).getLast? = some name) (hne : name ≠ [])
    (hsafe : isSafeSegment name = true) : SameFile H sources path := by
  obtain ⟨init, habs⟩ := absPath_concat (H := H) hlast
  have hslash : '/' ∉ name := not_mem_of_mem_splitOn (List.mem_of_getLast? hlast)
  have hdot : name.head? ≠ some '.' := by
    have hs := hsafe
    rw [isSafeSegment, Bool.and_eq_true] at hs
    simpa using hs.1
  have hvoid : Path.isVoid name = false := by
    have hcurrent : name ≠ ".".toList := fun he => hdot (by rw [he]; rfl)
    rw [Path.isVoid, decide_eq_false hne, decide_eq_false hcurrent]
    rfl
  obtain ⟨dir, hparent, hcomponents⟩ := Path.components_push_parent init hvoid
  have hfile : (absPath H path).fileName = some name := by
    have hparentDir : name ≠ "..".toList := fun he => hdot (by rw [he]; rfl)
    rw [habs, Path.fileName, Path.trimmed, List.rdropWhile_concat, hvoid]
    simp only [Bool.false_eq_true, if_false, List.getLast?_concat, Option.filter_some]
    rw [if_pos (by simpa using hparentDir)]
  have hends : ∀ p : Path, Path.endsAsDirectory (p ++ [name]) = false := by
    intro p
    simp [Path.endsAsDirectory, hvoid]
  have hread : readToString sources.files (dir.push [name]) = readToString sources.files (absPath H path) := by
    rw [readToString, readToString, habs, hcomponents, hends init, Path.push, hends]
  have hjoin : safeJoin dir name = some (dir.push [name]) := by
    rw [safeJoin, Path.ofStr, List.splitOn_eq_singleton hslash]
    simp [hsafe]
  intro source
  rw [habs, hparent, ← habs, hfile, Option.getD_some, fetch_ok_iff, dirLoader, load]
  simp only [hjoin, hread]
  cases readToString sources.files (absPath H path) with
  | ok found => simp
  | error err => cases herr : err.notFound <;> simp [herr]

def includeHost : Host where
  cwd := [[], "srv".toList]
  hash bytes := bytes.foldl (fun n b => n * 257 + (b.toNat + 1)) 0
  matchesTopic topic other := topic = other
  syntaxError _ := none
  templateNotFound name := name
  couldNotRead := []
  start _ source _ :=
    match source with
    | '@' :: name => .ask name .done
    | _ => .done (.ok source)
  rendering := .plain

def siteFiles (page nav foot : Str) : Files where
  file
    | [_, name] =>
      if name = "page.html".toList then .ok page
      else if name = "nav.html".toList then .ok nav
      else if name = "foot.html".toList then .ok foot
      else .error ⟨true, []⟩
    | _ => .error ⟨true, []⟩
  directory _ := ⟨false, []⟩

def page : Args := ⟨some "page.html".toList, none, none⟩

def pageTemplate (source : Str) : Value := compiledTemplate (hashSourceAndPath includeHost source "/srv".toList)

def staleRun : List Act :=
  [.compile (page.toCompile false), .render (pageTemplate "@nav.html".toList) .empty,
    .edit (siteFiles "@nav.html".toList "new".toList [])]

theorem includedEdit_unseen :
    ¬ ∀ acts s args asHtml input,
      run (step includeHost) (init (siteFiles "@nav.html".toList "old".toList []) none) acts = some s →
        compileThenRender includeHost s (args.toCompile asHtml) input =
          (mj includeHost s.sources args input).toOption := by
  intro h
  obtain ⟨s, hs⟩ := Option.isSome_iff_exists.mp (by decide +kernel : (run (step includeHost)
    (init (siteFiles "@nav.html".toList "old".toList []) none) staleRun).isSome = true)
  have hboth : (run (step includeHost) (init (siteFiles "@nav.html".toList "old".toList []) none) staleRun).map
      (fun s => (compileThenRender includeHost s (page.toCompile false) .empty,
        (mj includeHost s.sources page .empty).toOption)) = some (some "old".toList, some "new".toList) := by
    decide +kernel
  rw [hs] at hboth
  obtain ⟨hold, hnew⟩ := Prod.mk.inj (Option.some.inj hboth)
  have heq := h staleRun s page false .empty hs
  rw [hold, hnew] at heq
  exact absurd heq (by decide)

/-- An edit of the page and of what it no longer includes: the environment that has kept that stays as it is. -/
def editedRun : List Act :=
  [.compile (page.toCompile false), .render (pageTemplate "@nav.html".toList) .empty,
    .edit (siteFiles "@foot.html".toList "new".toList "foot".toList)]

def siteInit : State := init (siteFiles "@nav.html".toList "old".toList "foot".toList) none

theorem compileThenRender_agrees_edited :
    ∃ s, run (step includeHost) siteInit editedRun = some s ∧
      compileThenRender includeHost s (page.toCompile false) .empty =
        (mj includeHost s.sources page .empty).toOption := by
  refine ⟨_, rfl, compileThenRender_agrees (s := _) (rfl : run _ _ editedRun = _) page false .empty ?_⟩
  intro mode context hmode hcontext
  cases hmode
  have hlast : (Path.ofStr "page.html".toList).getLast? = some "page.html".toList := by decide
  refine ⟨sameFile_of_name hlast (by decide) (by decide), fun source hread => ?_⟩
  cases hread
  refine ⟨⟨by decide +kernel, fun _ name hasks => ?_⟩, fun _ => rfl⟩
  obtain rfl : "foot.html".toList = name := hasks.elim id False.elim
  decide +kernel

end HttpNu.Commands.Templates
