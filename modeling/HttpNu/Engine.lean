import HttpNu.Value

/-! Engines, and how a script becomes one. -/

namespace HttpNu

open Text

/-- An engine: the interpreter's state, the handler closure and the token that cancels its event streams. -/
structure Engine (σ : Type) where
  state : σ
  closure : Option Nat
  sseCancelToken : Nat

namespace Engine

structure Parsed (β : Type) where
  parseErrors : List Str
  compileErrors : List Str
  block : β

structure Evaluated (κ : Type) where
  body : Except Str Value
  stack : κ

/-- The interpreter as a script meets it; errors are texts as `format_cli_error` gives them. -/
structure Interpreter (σ β κ : Type) where
  setFile : σ → Option Str → σ
  parse : σ → Option Str → Str → Parsed β
  mergeDelta : σ → β → Except Str σ
  evalBlock : σ → β → Except Str (Evaluated κ)
  notClosure : Value → Str
  requiredPositional : σ → Nat → Nat
  mergeEnv : σ → κ → Except Str σ
  stripAnsi : Str → Str

variable {σ β κ : Type} (nu : Interpreter σ β κ)

def intoClosure : Value → Except Str Nat
  | .closure blockId => .ok blockId
  | v => .error (nu.notClosure v)

def checkErrors (errors : List Str) : Except Str Unit :=
  match errors.head? with
  | some err => .error err
  | none => .ok ()

def checkArity (n : Nat) : Except Str Unit :=
  if n ≠ 1 then
    .error ("Closure must accept exactly one request argument, found ".toList ++ (toString n).toList)
  else .ok ()

def parseClosure (engine : Engine σ) (script : Str) (file : Option Str) : Except Str (Engine σ) := do
  let state := nu.setFile engine.state file
  let parsed := nu.parse state file script
  checkErrors parsed.parseErrors
  checkErrors parsed.compileErrors
  let state ← nu.mergeDelta state parsed.block
  let result ← nu.evalBlock state parsed.block
  let closure ← intoClosure nu (← result.body)
  checkArity (nu.requiredPositional state closure)
  let state ← nu.mergeEnv state result.stack
  return { engine with state := state, closure := some closure }

def scriptToEngine (base : Engine σ) (fresh : Nat) (script : Str) (file : Option Str) :
    Except Str (Engine σ) :=
  parseClosure nu { base with sseCancelToken := fresh } script file

variable {nu}

lemma bind_ok {α γ : Type} {x : Except Str α} {f : α → Except Str γ} {c : γ} (h : x >>= f = .ok c) :
    ∃ a, x = .ok a ∧ f a = .ok c := by
  cases x with
  | error e => cases h
  | ok a => exact ⟨a, rfl, h⟩

lemma checkErrors_ok {errors : List Str} {u : Unit} (h : checkErrors errors = .ok u) : errors = [] := by
  cases errors with
  | nil => rfl
  | cons err errors => cases h

lemma checkArity_ok {n : Nat} {u : Unit} (h : checkArity n = .ok u) : n = 1 := by
  by_contra hn
  rw [checkArity, if_pos hn] at h
  cases h

lemma intoClosure_ok {v : Value} {blockId : Nat} (h : intoClosure nu v = .ok blockId) :
    v = .closure blockId := by
  cases v <;> simp_all [intoClosure]

/-- What makes a script acceptable: no errors in it, and a closure of one argument as its value. -/
structure Accepts (nu : Interpreter σ β κ) (engine : Engine σ) (script : Str) (file : Option Str)
    (blockId : Nat) : Prop where
  parses : (nu.parse (nu.setFile engine.state file) file script).parseErrors = []
  compiles : (nu.parse (nu.setFile engine.state file) file script).compileErrors = []
  evaluates : ∃ state result,
    nu.mergeDelta (nu.setFile engine.state file)
        (nu.parse (nu.setFile engine.state file) file script).block = .ok state ∧
      nu.evalBlock state (nu.parse (nu.setFile engine.state file) file script).block = .ok result ∧
      result.body = .ok (.closure blockId) ∧ nu.requiredPositional state blockId = 1

theorem scriptToEngine_ok {base engine : Engine σ} {fresh : Nat} {script : Str} {file : Option Str}
    (h : scriptToEngine nu base fresh script file = .ok engine) :
    engine.sseCancelToken = fresh ∧
      ∃ blockId, engine.closure = some blockId ∧
        Accepts nu { base with sseCancelToken := fresh } script file blockId := by
  simp only [scriptToEngine, parseClosure] at h
  obtain ⟨_, hparse, h⟩ := bind_ok h
  obtain ⟨_, hcompile, h⟩ := bind_ok h
  obtain ⟨state, hmerge, h⟩ := bind_ok h
  obtain ⟨result, heval, h⟩ := bind_ok h
  obtain ⟨v, hbody, h⟩ := bind_ok h
  obtain ⟨blockId, hclosure, h⟩ := bind_ok h
  obtain ⟨_, harity, h⟩ := bind_ok h
  obtain ⟨state', _, h⟩ := bind_ok h
  obtain rfl := Except.ok.inj h
  rw [intoClosure_ok hclosure] at hbody
  exact ⟨rfl, blockId, rfl, checkErrors_ok hparse, checkErrors_ok hcompile,
    state, result, hmerge, heval, hbody, checkArity_ok harity⟩

end Engine

end HttpNu
