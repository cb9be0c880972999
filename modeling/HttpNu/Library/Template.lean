import HttpNu.Library.Runs

/-! A template language with values, loops and conditions: its text, how the text is read, and what it shows. -/

namespace HttpNu.Library.Template

inductive Item where
  | char (c : Char)
  | value (expr : List Char)
  | loop (target iterable : List Char) (body : List Item)
  | cond (test : List Char) (body : List Item)

inductive Kind where
  | value
  | tag
  deriving DecidableEq

inductive Token where
  | char (c : Char)
  | directive (kind : Kind) (raw : List Char)
  deriving DecidableEq

def Kind.opening : Kind → Char
  | value => '{'
  | tag => '%'

def Kind.closing : Kind → Char
  | value => '}'
  | tag => '%'

def Token.write : Token → List Char
  | char c => [c]
  | directive kind raw => '{' :: kind.opening :: (raw ++ [kind.closing, '}'])

/-- What a reader is in: text, perhaps behind a brace, or a directive, perhaps behind half of its end. -/
inductive Mode where
  | text
  | brace
  | inside (kind : Kind) (read : List Char)
  | ending (kind : Kind) (read : List Char)

/-- The tokens of a text; none where a directive does not end, or a comment begins. -/
def lex : Mode → List Char → Option (List Token)
  | .text, [] => some []
  | .brace, [] => some [.char '{']
  | .inside _ _, [] => none
  | .ending _ _, [] => none
  | .text, c :: cs => if c = '{' then lex .brace cs else (lex .text cs).map (.char c :: ·)
  | .brace, c :: cs =>
    if c = '{' then lex (.inside .value []) cs
    else if c = '%' then lex (.inside .tag []) cs
    else if c = '#' then none
    else (lex .text cs).map (fun ts => .char '{' :: .char c :: ts)
  | .inside kind read, c :: cs =>
    if c = kind.closing then lex (.ending kind read) cs else lex (.inside kind (c :: read)) cs
  | .ending kind read, c :: cs =>
    if c = '}' then (lex .text cs).map (.directive kind read.reverse :: ·)
    else if c = kind.closing then lex (.ending kind (kind.closing :: read)) cs
    else lex (.inside kind (c :: kind.closing :: read)) cs

def unpad : List Char → Option (List Char)
  | ' ' :: cs => if cs.getLast? = some ' ' then some cs.dropLast else none
  | _ => none

def pad (s : List Char) : List Char := ' ' :: (s ++ [' '])

def cut (separator : List Char) : List Char → Option (List Char × List Char)
  | [] => none
  | c :: cs =>
    if separator.isPrefixOf (c :: cs) then some ([], (c :: cs).drop separator.length)
    else (cut separator cs).map (fun p => (c :: p.1, p.2))

inductive Block where
  | loop (target iterable : List Char)
  | cond (test : List Char)

namespace Block

def keyword : Block → List Char
  | loop _ _ => "for ".toList
  | cond _ => "if ".toList

def closer : Block → List Char
  | loop _ _ => "endfor".toList
  | cond _ => "endif".toList

def head : Block → List Char
  | loop target iterable => target ++ (" in ".toList ++ iterable)
  | cond test => test

def item : Block → List Item → Item
  | loop target iterable, body => .loop target iterable body
  | cond test, body => .cond test body

end Block

def readBlock (s : List Char) : Option Block :=
  if "for ".toList.isPrefixOf s then (cut " in ".toList (s.drop 4)).map (fun p => .loop p.1 p.2)
  else if "if ".toList.isPrefixOf s then some (.cond (s.drop 3))
  else none

/-- The blocks that are open, each with what stood before it, and what was read since; the latest first. -/
structure Reader where
  blocks : List (Block × List Item)
  done : List Item

namespace Reader

def push (r : Reader) (i : Item) : Reader := { r with done := i :: r.done }

def enter (r : Reader) (block : Block) : Reader := ⟨(block, r.done) :: r.blocks, []⟩

def step (r : Reader) : Token → Option Reader
  | .char c => some (r.push (.char c))
  | .directive .value raw => (unpad raw).map (fun expr => r.push (.value expr))
  | .directive .tag raw =>
    (unpad raw).bind (fun s =>
      match r.blocks with
      | [] => (readBlock s).map r.enter
      | (block, before) :: blocks =>
        if s = block.closer then some ⟨blocks, block.item r.done.reverse :: before⟩
        else (readBlock s).map r.enter)

def finish (r : Reader) : Option (List Item) := if r.blocks.isEmpty then some r.done.reverse else none

end Reader

def parse (source : List Char) : Option (List Item) :=
  (lex .text source).bind (fun ts => (run Reader.step ⟨[], []⟩ ts).bind Reader.finish)

def Block.tokens (block : Block) (body : List Token) : List Token :=
  .directive .tag (pad (block.keyword ++ block.head)) :: (body ++ [.directive .tag (pad block.closer)])

mutual

def Item.tokens : Item → List Token
  | .char c => [.char c]
  | .value expr => [.directive .value (pad expr)]
  | .loop target iterable body => (Block.loop target iterable).tokens (tokensAll body)
  | .cond test body => (Block.cond test).tokens (tokensAll body)

def tokensAll : List Item → List Token
  | [] => []
  | i :: is => i.tokens ++ tokensAll is

end

def writeAll (items : List Item) : List Char := (tokensAll items).flatMap Token.write

/-- The expressions of a template and what they mean: a text, a truth value, the scopes of a loop's body. -/
structure Language (Scope Failure : Type) where
  expression : List Char → Bool
  target : List Char → Bool
  iterable : List Char → Bool
  value : List Char → Scope → Except Failure (List Char)
  holds : List Char → Scope → Except Failure Bool
  each : List Char → List Char → Scope → Except Failure (List Scope)

namespace Language

variable {Scope Failure : Type} (L : Language Scope Failure)

mutual

def Accepts : Item → Prop
  | .char _ => True
  | .value expr => L.expression expr = true
  | .loop target iterable body => L.target target = true ∧ L.iterable iterable = true ∧ AcceptsAll body
  | .cond test body => L.expression test = true ∧ AcceptsAll body

def AcceptsAll : List Item → Prop
  | [] => True
  | i :: is => Accepts i ∧ AcceptsAll is

end

mutual

def render : Item → Scope → Except Failure (List Char)
  | .char c, _ => .ok [c]
  | .value expr, scope => L.value expr scope
  | .loop target iterable body, scope => do
    return (← (← L.each target iterable scope).mapM (renderAll body)).flatten
  | .cond test body, scope => do if ← L.holds test scope then renderAll body scope else return []

def renderAll : List Item → Scope → Except Failure (List Char)
  | [], _ => .ok []
  | i :: is, scope => do return (← render i scope) ++ (← renderAll is scope)

end

end Language

/-- No brace of a text stands where it would open a directive or a comment. -/
def Token.Apart (a b : Token) : Prop := a = .char '{' → ∀ c ∈ b.write.head?, c ∉ ['{', '%', '#']

def Token.Closed : Token → Prop
  | .char _ => True
  | .directive kind raw => (raw ++ [kind.closing]).IsChain (fun a b => ¬ (a = kind.closing ∧ b = '}'))

instance (a b : Token) : Decidable (a.Apart b) := inferInstanceAs (Decidable (_ → _))

instance : ∀ t : Token, Decidable t.Closed
  | .char _ => inferInstanceAs (Decidable True)
  | .directive _ _ => inferInstanceAs (Decidable (List.IsChain _ _))

def Legible (ts : List Token) : Prop := ts.IsChain Token.Apart ∧ ∀ t ∈ ts, t.Closed

instance (ts : List Token) : Decidable (Legible ts) := inferInstanceAs (Decidable (_ ∧ _))

lemma lex_directive (kind : Kind) (cs raw : List Char) :
    ∀ read, ((raw ++ [kind.closing]).IsChain (fun a b => ¬ (a = kind.closing ∧ b = '}')) →
        lex (.inside kind read) (raw ++ kind.closing :: '}' :: cs) =
          (lex .text cs).map (.directive kind (read.reverse ++ raw) :: ·)) ∧
      ((kind.closing :: (raw ++ [kind.closing])).IsChain (fun a b => ¬ (a = kind.closing ∧ b = '}')) →
        lex (.ending kind read) (raw ++ kind.closing :: '}' :: cs) =
          (lex .text cs).map (.directive kind (read.reverse ++ kind.closing :: raw) :: ·)) := by
  induction raw with
  | nil =>
    intro read
    constructor
    · intro _
      rw [List.nil_append, lex, if_pos rfl, lex, if_pos rfl, List.append_nil]
    · intro hclosed
      have hne : kind.closing ≠ '}' := fun h => (List.isChain_cons_cons.mp hclosed).1 ⟨rfl, h⟩
      rw [List.nil_append, lex, if_neg hne, if_pos rfl, lex, if_pos rfl, List.reverse_cons]
  | cons c raw ih =>
    intro read
    constructor
    · intro hclosed
      rw [List.cons_append, lex]
      split
      · rename_i hc
        subst hc
        exact (ih read).2 hclosed
      · rw [(ih (c :: read)).1 (List.isChain_cons.mp hclosed).2, List.reverse_cons, List.append_assoc,
          List.singleton_append]
    · intro hclosed
      obtain ⟨hne, hrest⟩ := List.isChain_cons_cons.mp hclosed
      rw [List.cons_append, lex, if_neg (fun h => hne ⟨rfl, h⟩)]
      split
      · rename_i hc
        subst hc
        rw [(ih (_ :: read)).2 hrest, List.reverse_cons, List.append_assoc, List.singleton_append]
      · rw [(ih (c :: _ :: read)).1 (List.isChain_cons.mp hrest).2, List.reverse_cons, List.reverse_cons,
          List.append_assoc, List.append_assoc, List.singleton_append, List.singleton_append]

lemma lex_char {c : Char} {cs : List Char} (h : c = '{' → ∀ d ∈ cs.head?, d ∉ ['{', '%', '#']) :
    lex .text (c :: cs) = (lex .text cs).map (.char c :: ·) := by
  rw [lex]
  split
  · rename_i hc
    subst hc
    cases cs with
    | nil => rfl
    | cons d cs =>
      have hd := h rfl d rfl
      simp only [List.mem_cons, List.not_mem_nil, or_false, not_or] at hd
      obtain ⟨hbrace, hpercent, hhash⟩ := hd
      have htext : lex .text (d :: cs) = (lex .text cs).map (.char d :: ·) := by rw [lex, if_neg hbrace]
      rw [htext, lex, if_neg hbrace, if_neg hpercent, if_neg hhash, Option.map_map]
      rfl
  · rfl

lemma lex_opening (kind : Kind) (cs : List Char) :
    lex .text ('{' :: kind.opening :: cs) = lex (.inside kind []) cs := by
  cases kind <;> rfl

lemma lex_write {ts : List Token} (h : Legible ts) : lex .text (ts.flatMap Token.write) = some ts := by
  obtain ⟨hapart, hclosed⟩ := h
  induction ts with
  | nil => rfl
  | cons t ts ih =>
    obtain ⟨hnext, hapart⟩ := List.isChain_cons.mp hapart
    have ih := ih hapart (fun u hu => hclosed u (List.mem_cons_of_mem t hu))
    rw [List.flatMap_cons]
    cases t with
    | char c =>
      rw [Token.write, List.singleton_append, lex_char ?_, ih, Option.map_some]
      intro hc d hd
      cases ts with
      | nil => cases hd
      | cons u ts =>
        apply hnext u rfl (congrArg Token.char hc) d
        cases u <;> exact hd
    | directive kind raw =>
      have hraw := (lex_directive kind (ts.flatMap Token.write) raw []).1 (hclosed _ List.mem_cons_self)
      simp only [Token.write, List.cons_append, List.append_assoc, List.nil_append, lex_opening, hraw, ih,
        Option.map_some, List.reverse_nil]

lemma unpad_pad (s : List Char) : unpad (pad s) = some s := by
  simp [unpad, pad]

lemma cut_eq {a : Char} {separator before : List Char} (h : a ∉ before) (after : List Char) :
    cut (a :: separator) (before ++ a :: (separator ++ after)) = some (before, after) := by
  induction before with
  | nil =>
    have hprefix : (a :: separator).isPrefixOf (a :: (separator ++ after)) = true := by simp
    rw [List.nil_append, cut, if_pos hprefix]
    simp
  | cons c before ih =>
    rw [List.mem_cons, not_or] at h
    have hprefix : (a :: separator).isPrefixOf (c :: (before ++ a :: (separator ++ after))) = false := by
      simp [List.isPrefixOf, h.1]
    rw [List.cons_append, cut, hprefix, ih h.2]
    rfl

def Block.Readable : Block → Prop
  | loop target _ => ' ' ∉ target
  | cond _ => True

lemma Block.read (block : Block) (h : block.Readable) : readBlock (block.keyword ++ block.head) = some block := by
  cases block with
  | loop target iterable =>
    have hcut : cut " in ".toList (target ++ (" in ".toList ++ iterable)) = some (target, iterable) :=
      cut_eq h iterable
    have hprefix : "for ".toList.isPrefixOf ("for ".toList ++ (target ++ (" in ".toList ++ iterable))) = true :=
      rfl
    have hdrop : ("for ".toList ++ (target ++ (" in ".toList ++ iterable))).drop 4 =
        target ++ (" in ".toList ++ iterable) := rfl
    rw [keyword, head, readBlock, if_pos hprefix, hdrop, hcut]
    rfl
  | cond test => rfl

lemma Block.keyword_ne_closer (block other : Block) (s : List Char) : block.keyword ++ s ≠ other.closer := by
  cases block <;> cases other <;> simp [keyword, closer]

mutual

def Item.Readable : Item → Prop
  | .char _ => True
  | .value _ => True
  | .loop target iterable body => (Block.loop target iterable).Readable ∧ AllReadable body
  | .cond _ body => AllReadable body

def AllReadable : List Item → Prop
  | [] => True
  | i :: is => i.Readable ∧ AllReadable is

end

namespace Reader

def pushAll (r : Reader) (items : List Item) : Reader := { r with done := items.reverse ++ r.done }

lemma run_block (block : Block) (h : block.Readable) {body : List Item} {ts : List Token}
    (hbody : ∀ r : Reader, run step r ts = some (r.pushAll body)) (r : Reader) :
    run step r (block.tokens ts) = some (r.push (block.item body)) := by
  have henter : step r (.directive .tag (pad (block.keyword ++ block.head))) = some (r.enter block) := by
    obtain ⟨blocks, done⟩ := r
    cases blocks with
    | nil => simp only [step, unpad_pad, Option.bind_some, block.read h, Option.map_some]
    | cons b blocks =>
      simp only [step, unpad_pad, Option.bind_some, block.read h, Option.map_some,
        if_neg (block.keyword_ne_closer _ _)]
  have hleave : step ((r.enter block).pushAll body) (.directive .tag (pad block.closer)) =
      some (r.push (block.item body)) := by
    simp [step, unpad_pad, enter, pushAll, push]
  rw [Block.tokens, run_of_step henter, run_of_append (hbody _), run_of_step hleave, run_nil]

mutual

lemma run_item (i : Item) (h : i.Readable) (r : Reader) : run step r i.tokens = some (r.push i) := by
  cases i with
  | char c => rfl
  | value expr =>
    rw [Item.tokens, run_of_step (t := r.push (.value expr)) (by rw [step, unpad_pad]; rfl), run_nil]
  | loop target iterable body => exact run_block (.loop target iterable) h.1 (run_items body h.2) r
  | cond test body => exact run_block (.cond test) trivial (run_items body h) r

lemma run_items (is : List Item) (h : AllReadable is) (r : Reader) :
    run step r (tokensAll is) = some (r.pushAll is) := by
  cases is with
  | nil => rfl
  | cons i is =>
    rw [tokensAll, run_of_append (run_item i h.1 r), run_items is h.2]
    simp [pushAll, push]

end

end Reader

theorem parse_writeAll {items : List Item} (hread : AllReadable items) (hlex : Legible (tokensAll items)) :
    parse (writeAll items) = some items := by
  rw [parse, writeAll, lex_write hlex, Option.bind_some, Reader.run_items items hread, Option.bind_some]
  simp [Reader.finish, Reader.pushAll]

end HttpNu.Library.Template
