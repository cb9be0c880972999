import HttpNu.Commands.TemplateCache

/-! `.mj compile` in several threads: each call reads its source, waits for the cache, and returns a handle. -/

namespace HttpNu.Commands.Templates

open Text Library

variable (H : Host)

structure Compiling where
  source : Str
  baseDir : Str
  loader : Loader
  deriving DecidableEq

def Compiling.keyText (c : Compiling) : Str := c.source ++ c.baseDir

def Compiling.key (c : Compiling) : Nat := hashSourceAndPath H c.source c.baseDir

/-- What a call does before it takes the lock. -/
def readSource (sources : Sources) (args : CompileArgs) : Except ShellError Compiling :=
  (do compileSource H sources (← modeOf args.file (← inlineStr args.inline) args.topic)).map
    (fun (source, baseDir, loader) => ⟨source, baseDir, loader⟩)

/-- What a call does while it has the lock. -/
def Compiling.insert (c : Compiling) (s : State) : State × Except Str Nat :=
  compileTemplateWithLoader H s c.source c.baseDir c.loader

structure Threads where
  state : State
  waiting : List Compiling
  returned : List (Compiling × Nat)

inductive Move where
  | edit (files : Files)
  | append (frame : Frame)
  | read (args : CompileArgs)
  | lock (i : Nat)
  | render (template : Value) (input : Input)
  /-- a rendering under way asks its environment for a template -/
  | ask (hash : Nat) (name : Str)

def askTemplate (s : State) (hash : Nat) (name : Str) : State :=
  match s.cache.find hash with
  | none => s
  | some env => { s with cache := s.cache.keep hash (env.getTemplate H s.sources name).2 }

def move (t : Threads) : Move → Option Threads
  | .edit files => some { t with state := { t.state with sources := (Act.edit files).sources t.state.sources } }
  | .append frame =>
      some { t with state := { t.state with sources := (Act.append frame).sources t.state.sources } }
  | .read args =>
    match readSource H t.state.sources args with
    | .error _ => some t
    | .ok c => some { t with waiting := t.waiting ++ [c] }
  | .lock i => do
    let c ← t.waiting[i]?
    match c.insert H t.state with
    | (s, .ok hash) => some ⟨s, t.waiting.eraseIdx i, (c, hash) :: t.returned⟩
    | (s, .error _) => some ⟨s, t.waiting.eraseIdx i, t.returned⟩
  | .render template input => some { t with state := (render H t.state template input).1 }
  | .ask hash name => some { t with state := askTemplate H t.state hash name }

def Threads.init (files : Files) (store : Option (List Frame)) : Threads := ⟨Templates.init files store, [], []⟩

def BuiltFrom (env : Environment) (c : Compiling) : Prop :=
  env.templates.find mainName = some c.source ∧ env.loader = c.loader

/-- What a handle renders from is its own, no handle is without its entry, and a failed call changes nothing. -/
structure NeverMixed (t : Threads) : Prop where
  own : ∀ r ∈ t.returned, ∀ env, t.state.cache.find r.2 = some env → BuiltFrom env r.1
  found : ∀ r ∈ t.returned, ∀ input, (render H t.state (compiledTemplate r.2) input).2 ≠ none
  failed : ∀ (c : Compiling) s err, c.insert H t.state = (s, .error err) → s = t.state

def CollisionFree (calls : List Compiling) : Prop :=
  ∀ c ∈ calls, ∀ c' ∈ calls, c.key H = c'.key H → utf8 c.keyText = utf8 c'.keyText

/-- No two calls that differ in their source or loader have the same text for their keys. -/
def TextsApart (calls : List Compiling) : Prop :=
  ∀ c ∈ calls, ∀ c' ∈ calls, c.keyText = c'.keyText → c.source = c'.source ∧ c.loader = c'.loader

/-- Every handle is the key of its call and has an entry, and every entry is that of a call that has returned. -/
structure Kept (t : Threads) : Prop where
  handles : ∀ r ∈ t.returned, r.2 = r.1.key H ∧ (t.state.cache.find r.2).isSome
  entries : ∀ hash env, t.state.cache.find hash = some env → ∃ c, (c, hash) ∈ t.returned ∧ BuiltFrom env c

variable {H} {t t' : Threads}

theorem compile_eq (s : State) (args : CompileArgs) :
    compile H s args =
      match readSource H s.sources args with
      | .error err => (s, .error err)
      | .ok c =>
        match c.insert H s with
        | (s, .ok hash) => (s, .ok (compiledTemplate hash))
        | (s, .error err) => (s, .error (engineError "Template compile error".toList err)) := by
  rw [compile, readSource]
  cases (do compileSource H s.sources (← modeOf args.file (← inlineStr args.inline) args.topic)) with
  | error err => rfl
  | ok source => rfl

lemma BuiltFrom.getTemplate {env : Environment} {c : Compiling} (h : BuiltFrom env c) (sources : Sources)
    (name : Str) :
    BuiltFrom (env.getTemplate H sources name).2 c :=
  ⟨Memo.find_get h.1 name, h.2⟩

lemma BuiltFrom.render {env : Environment} {c : Compiling} (h : BuiltFrom env c) (sources : Sources)
    (name source : Str)
    (context : Json) : BuiltFrom (env.render H sources name source context).2 c :=
  ⟨Memo.find_exec _ h.1, h.2⟩

lemma insert_cases (c : Compiling) (s : State) :
    (c.insert H s = (s, .ok (c.key H)) ∧ (s.cache.find (c.key H)).isSome) ∨
    (∃ err, c.insert H s = (s, .error err)) ∨
    (∃ env, BuiltFrom env c ∧ s.cache.find (c.key H) = none ∧
      c.insert H s = ({ s with cache := s.cache.keep (c.key H) env }, .ok (c.key H))) := by
  simp only [Compiling.insert, compileTemplateWithLoader, Compiling.key]
  by_cases hfind : (s.cache.find (hashSourceAndPath H c.source c.baseDir)).isSome
  · exact .inl ⟨if_pos hfind, hfind⟩
  · right
    simp only [if_neg hfind]
    cases hparse : H.syntaxError c.source with
    | some err =>
      left
      exact ⟨err, by simp only [Environment.addTemplate, hparse]⟩
    | none =>
      right
      rw [addTemplate_ok hparse]
      exact ⟨_, ⟨Memo.find_keep_self _ _ _, rfl⟩, Option.not_isSome_iff_eq_none.mp hfind, rfl⟩

lemma Kept.keep (h : Kept H t) {hash : Nat} {env env' : Environment} (hfind : t.state.cache.find hash = some env)
    (hbuilt : ∀ c, BuiltFrom env c → BuiltFrom env' c) :
    Kept H { t with state := { t.state with cache := t.state.cache.keep hash env' } } where
  handles r hr := by
    refine ⟨(h.handles r hr).1, ?_⟩
    by_cases hkey : r.2 = hash
    · rw [hkey, Memo.find_keep_self]
      rfl
    · rw [Memo.find_keep_ne _ hkey]
      exact (h.handles r hr).2
  entries key env₁ hkey := by
    by_cases heq : key = hash
    · rw [heq, Memo.find_keep_self] at hkey
      obtain rfl := Option.some.inj hkey
      obtain ⟨c, hc, henv⟩ := h.entries hash env hfind
      exact ⟨c, heq ▸ hc, hbuilt c henv⟩
    · rw [Memo.find_keep_ne _ heq] at hkey
      exact h.entries key env₁ hkey

lemma Kept.ask (h : Kept H t) (hash : Nat) (name : Str) :
    Kept H { t with state := askTemplate H t.state hash name } := by
  rw [askTemplate]
  split
  · exact h
  · rename_i env hfind
    exact h.keep hfind (fun c hc => hc.getTemplate _ _)

lemma Kept.render (h : Kept H t) (template : Value) (input : Input) :
    Kept H { t with state := (render H t.state template input).1 } := by
  simp only [Templates.render]
  split
  · exact h
  · split
    · exact h
    · rename_i hash context _ _ env hfind
      simp only [renderCompiled]
      split
      · rename_i env' hget
        refine h.keep hfind (fun c hc => ?_)
        have hbuilt := hc.getTemplate (H := H) t.state.sources mainName
        rwa [hget] at hbuilt
      · rename_i source env' hget
        refine h.keep hfind (fun c hc => ?_)
        have hbuilt := hc.getTemplate (H := H) t.state.sources mainName
        rw [hget] at hbuilt
        exact hbuilt.render _ _ _ _

lemma Kept.lock {c : Compiling} {s : State} {hash : Nat} (waiting : List Compiling) (h : Kept H t)
    (hins : c.insert H t.state = (s, .ok hash)) :
    Kept H ⟨s, waiting, (c, hash) :: t.returned⟩ := by
  rcases insert_cases c t.state with ⟨hkey, hfound⟩ | ⟨err, hkey⟩ | ⟨env, hbuilt, hfree, hkey⟩
  · obtain ⟨rfl, hhash⟩ := Prod.mk.inj (hkey.symm.trans hins)
    obtain rfl := Except.ok.inj hhash
    refine ⟨List.forall_mem_cons.mpr ⟨⟨rfl, hfound⟩, h.handles⟩, fun key env hfind => ?_⟩
    obtain ⟨c', hc', henv⟩ := h.entries key env hfind
    exact ⟨c', List.mem_cons_of_mem _ hc', henv⟩
  · rw [hkey] at hins
    cases hins
  · obtain ⟨rfl, hhash⟩ := Prod.mk.inj (hkey.symm.trans hins)
    obtain rfl := Except.ok.inj hhash
    constructor
    · refine List.forall_mem_cons.mpr ⟨⟨rfl, ?_⟩, fun r hr => ⟨(h.handles r hr).1, ?_⟩⟩
      · rw [Memo.find_keep_self]
        rfl
      · by_cases hr' : r.2 = c.key H
        · rw [hr', Memo.find_keep_self]
          rfl
        · rw [Memo.find_keep_ne _ hr']
          exact (h.handles r hr).2
    · intro key env' hfind
      by_cases hk : key = c.key H
      · rw [hk, Memo.find_keep_self] at hfind
        obtain rfl := Option.some.inj hfind
        exact ⟨c, hk ▸ List.mem_cons_self, hbuilt⟩
      · rw [Memo.find_keep_ne _ hk] at hfind
        obtain ⟨c', hc', henv⟩ := h.entries key env' hfind
        exact ⟨c', List.mem_cons_of_mem _ hc', henv⟩

lemma kept_move (t : Threads) (a : Move) (t' : Threads) (h : Kept H t) (hmove : move H t a = some t') :
    Kept H t' := by
  cases a with
  | edit files | append frame =>
    obtain rfl := Option.some.inj hmove
    exact ⟨h.handles, h.entries⟩
  | read args =>
    simp only [move] at hmove
    split at hmove <;> obtain rfl := Option.some.inj hmove
    · exact h
    · exact ⟨h.handles, h.entries⟩
  | lock i =>
    obtain ⟨c, _, hmove⟩ := Option.bind_eq_some_iff.mp hmove
    split at hmove <;> rename_i hins <;> obtain rfl := Option.some.inj hmove
    · exact h.lock _ hins
    · rcases insert_cases c t.state with ⟨hkey, _⟩ | ⟨_, hkey⟩ | ⟨_, _, _, hkey⟩ <;>
        rw [hkey] at hins <;> cases hins
      exact ⟨h.handles, h.entries⟩
  | render template input =>
    obtain rfl := Option.some.inj hmove
    exact h.render template input
  | ask hash name =>
    obtain rfl := Option.some.inj hmove
    exact h.ask hash name

lemma kept_run {files : Files} {store : Option (List Frame)} {moves : List Move}
    (hrun : run (move H) (Threads.init files store) moves = some t) : Kept H t :=
  run_invariant (P := Kept H) kept_move ⟨List.forall_mem_nil _, fun _ _ hfind => by cases hfind⟩ hrun

lemma render_found {s : State} {hash : Nat} (h : (s.cache.find hash).isSome) (input : Input) :
    (render H s (compiledTemplate hash) input).2 ≠ none := by
  obtain ⟨env, henv⟩ := Option.isSome_iff_exists.mp h
  have hhash : compiledHash (compiledTemplate hash) = .ok hash := by simp [compiledHash, compiledTemplate]
  simp only [render, hhash]
  cases contextOf H input with
  | error err => exact Option.some_ne_none _
  | ok context =>
    simp only [bind, Except.bind, pure, Except.pure, henv]
    exact Option.some_ne_none _

lemma key_congr {c c' : Compiling} (h : c.keyText = c'.keyText) : c.key H = c'.key H := by
  rw [Compiling.key, Compiling.key, hashSourceAndPath, hashSourceAndPath, ← utf8_append, ← utf8_append]
  exact congrArg (fun text => H.hash (utf8 text)) h

theorem neverMixed_iff (files : Files) (store : Option (List Frame)) (moves : List Move) (t : Threads)
    (hrun : run (move H) (Threads.init files store) moves = some t)
    (hcollision : CollisionFree H (t.returned.map Prod.fst)) :
    NeverMixed H t ↔ TextsApart (t.returned.map Prod.fst) := by
  have hkept := kept_run hrun
  constructor
  · intro hnever c hc c' hc' htext
    obtain ⟨⟨c, hash⟩, hr, rfl⟩ := List.mem_map.mp hc
    obtain ⟨⟨c', hash'⟩, hr', rfl⟩ := List.mem_map.mp hc'
    obtain ⟨hkey, hfound⟩ := hkept.handles _ hr
    obtain ⟨env, henv⟩ := Option.isSome_iff_exists.mp hfound
    have hsame : hash = hash' := hkey.trans ((key_congr htext).trans (hkept.handles _ hr').1.symm)
    obtain ⟨hmain, hloader⟩ := hnever.own _ hr env henv
    obtain ⟨hmain', hloader'⟩ := hnever.own _ hr' env (hsame ▸ henv)
    exact ⟨Option.some.inj (hmain.symm.trans hmain'), hloader.symm.trans hloader'⟩
  · intro hapart
    refine ⟨fun r hr env henv => ?_, fun r hr input => render_found (hkept.handles r hr).2 input,
      fun c s err hins => ?_⟩
    · obtain ⟨c', hr', hmain, hloader⟩ := hkept.entries _ _ henv
      have hc := List.mem_map_of_mem (f := Prod.fst) hr
      have hc' := List.mem_map_of_mem (f := Prod.fst) hr'
      have hkeys : r.1.key H = c'.key H := (hkept.handles r hr).1.symm.trans (hkept.handles _ hr').1
      have htexts := hapart _ hc _ hc' (utf8_injective (hcollision _ hc _ hc' hkeys))
      exact ⟨htexts.1 ▸ hmain, htexts.2 ▸ hloader⟩
    · rcases insert_cases c t.state with ⟨hkey, _⟩ | ⟨_, hkey⟩ | ⟨_, _, _, hkey⟩ <;>
        rw [hkey] at hins <;> cases hins
      rfl

lemma includeHost_hash_injective : Function.Injective includeHost.hash := by
  intro xs
  -- the last byte is the remainder
  induction xs using List.reverseRecOn with
  | nil =>
    intro ys h
    rcases List.eq_nil_or_concat ys with rfl | ⟨ys, b, rfl⟩
    · rfl
    · simp [includeHost] at h
  | append_singleton xs a ih =>
    intro ys h
    rcases List.eq_nil_or_concat ys with rfl | ⟨ys, b, rfl⟩
    · simp [includeHost] at h
    · have hdigits : includeHost.hash xs * 257 + (a.toNat + 1) = includeHost.hash ys * 257 + (b.toNat + 1) := by
        simpa [includeHost, List.foldl_append] using h
      have ha := a.toNat_lt
      have hb := b.toNat_lt
      obtain rfl := ih (show includeHost.hash xs = includeHost.hash ys by omega)
      obtain rfl : a = b := UInt8.toNat_inj.mp (by omega)
      rw [List.concat_eq_append]

lemma includeHost_collisionFree (calls : List Compiling) : CollisionFree includeHost calls := by
  intro c _ c' _ h
  rw [Compiling.keyText, Compiling.keyText, utf8_append, utf8_append]
  exact includeHost_hash_injective h

def splitFiles : Files where
  file
    | [_, _, _] => .ok "t".toList
    | _ => .ok "t/a".toList
  directory _ := ⟨false, []⟩

def fileCall (path : Str) : CompileArgs := ⟨some path, none, none⟩

def deepCall : Compiling := ⟨"t".toList, "/a/b".toList, .path [[], "a".toList, "b".toList]⟩
def flatCall : Compiling := ⟨"t/a".toList, "/b".toList, .path [[], "b".toList]⟩
def inlineCall : Compiling := ⟨"t".toList, "__inline__".toList, .empty⟩

def splitRun : List Move :=
  [.read (fileCall "/a/b/page".toList), .read (fileCall "/b/page".toList), .lock 0, .lock 0]

def inlineRun : List Move :=
  [.read (fileCall "/a/b/page".toList), .read ⟨none, some (.string "t".toList), none⟩, .lock 1, .lock 0]

theorem splitRun_mixed :
    ∃ t, run (move includeHost) (Threads.init splitFiles none) splitRun = some t ∧
      CollisionFree includeHost (t.returned.map Prod.fst) ∧ ¬ NeverMixed includeHost t := by
  have hend : (run (move includeHost) (Threads.init splitFiles none) splitRun).map
      (fun t => (t.returned.map Prod.fst,
        t.returned.map (fun r => (t.state.cache.find r.2).map (fun env => env.templates.find mainName)))) =
        some ([flatCall, deepCall], [some (some "t".toList), some (some "t".toList)]) := by
    decide
  obtain ⟨t, hrun, hboth⟩ := Option.map_eq_some_iff.mp hend
  obtain ⟨hcalls, hfound⟩ := Prod.mk.inj hboth
  refine ⟨t, hrun, includeHost_collisionFree _, fun h => ?_⟩
  obtain ⟨r, rest, hreturned⟩ : ∃ r rest, t.returned = r :: rest := List.exists_cons_of_ne_nil (by
    rintro hnil
    rw [hnil] at hcalls
    cases hcalls)
  rw [hreturned] at hcalls hfound
  obtain ⟨env, henv, hmain⟩ := Option.map_eq_some_iff.mp (List.cons.inj hfound).1
  have hown := (h.own r (hreturned ▸ List.mem_cons_self) env henv).1
  rw [hmain, (List.cons.inj hcalls).1] at hown
  exact absurd hown (by decide)

theorem neverMixed_inline :
    ∃ t, run (move includeHost) (Threads.init splitFiles none) inlineRun = some t ∧ NeverMixed includeHost t := by
  have hreturned : (run (move includeHost) (Threads.init splitFiles none) inlineRun).map
      (fun t => t.returned.map Prod.fst) = some [deepCall, inlineCall] := by
    decide
  obtain ⟨t, hrun, hcalls⟩ := Option.map_eq_some_iff.mp hreturned
  refine ⟨t, hrun, (neverMixed_iff splitFiles none inlineRun t hrun (includeHost_collisionFree _)).mpr ?_⟩
  rw [hcalls]
  unfold TextsApart
  decide

end HttpNu.Commands.Templates
