import HttpNu.Commands.TemplateCache
import HttpNu.Stdlib.Html

/-! Trees of the HTML DSL as templates: when their text is inert in the template language. -/

namespace HttpNu.Stdlib.Html

open Text Library Library.Html Commands.Templates

/-- `{{`, `{%` and `{#` begin what a template evaluates. -/
def Opens (a b : Char) : Prop := a = '{' ∧ (b = '{' ∨ b = '%' ∨ b = '#')

instance (a b : Char) : Decidable (Opens a b) := inferInstanceAs (Decidable (_ ∧ _))

def Literal (s : Str) : Prop := s.IsChain (fun a b => ¬ Opens a b)

instance (s : Str) : Decidable (Literal s) := inferInstanceAs (Decidable (s.IsChain _))

mutual

def LiteralNode : Node → Prop
  | .text s => Literal s
  | .element name attrs children =>
    Literal name ∧ (∀ a ∈ attrs, Literal a.1 ∧ ∀ v ∈ a.2, Literal v) ∧ LiteralAll children

def LiteralAll : List Node → Prop
  | [] => True
  | n :: ns => LiteralNode n ∧ LiteralAll ns

end

/-- Text outside delimiters is copied, but for a newline at its very end. -/
def Verbatim (H : Host) : Prop :=
  ∀ source, Literal source → source.getLast? ≠ some '\n' →
    H.syntaxError source = none ∧ ∀ name context, H.start name source context = .done (.ok source)

def inlineHtml (html : Str) : CompileArgs := ⟨none, some (.record [(htmlColumn, .string html)]), none⟩

/-- Compiled and rendered by an engine that copies text, in any context, the tree is its own HTML. -/
def RendersItself (html : Str) : Prop :=
  ∀ H, Verbatim H → ∀ s, EntryOk H s html "__inline__".toList .empty → ∀ input context,
    contextOf H input = .ok context → compileThenRender H s (inlineHtml html) input = some html

lemma literal_cons {a : Char} (h : a ≠ '{') (s : Str) : Literal (a :: s) ↔ Literal s := by
  rw [Literal, List.isChain_cons, Literal, and_iff_right]
  exact fun _ _ hopens => h hopens.1

lemma literal_append_cons {m : Char} (hbrace : m ≠ '{') (hpercent : m ≠ '%') (hhash : m ≠ '#') (s t : Str) :
    Literal (s ++ m :: t) ↔ Literal s ∧ Literal t := by
  have hlast : ∀ a, ¬ Opens a m := by
    rintro a ⟨_, h | h | h⟩
    · exact hbrace h
    · exact hpercent h
    · exact hhash h
  rw [Literal, List.isChain_append, ← Literal, ← Literal, literal_cons hbrace]
  simp [hlast]

lemma escapeChar_cases (c : Char) :
    escapeChar c = [c] ∨ c ≠ '{' ∧ (c ≠ '%' ∧ c ≠ '#') ∧ ∃ rest, escapeChar c = '&' :: rest ∧ '{' ∉ rest := by
  rw [escapeChar]
  split_ifs with hamp hquot hapos hlt hgt
  · exact Or.inr ⟨by simp [hamp], by simp [hamp], _, rfl, by decide⟩
  · exact Or.inr ⟨by simp [hquot], by simp [hquot], _, rfl, by decide⟩
  · exact Or.inr ⟨by simp [hapos], by simp [hapos], _, rfl, by decide⟩
  · exact Or.inr ⟨by simp [hlt], by simp [hlt], _, rfl, by decide⟩
  · exact Or.inr ⟨by simp [hgt], by simp [hgt], _, rfl, by decide⟩
  · exact Or.inl rfl

lemma literal_append_of_notMem {r : Str} (h : '{' ∉ r) (s : Str) : Literal (r ++ s) ↔ Literal s := by
  induction r with
  | nil => rfl
  | cons c r ih =>
    rw [List.mem_cons, not_or] at h
    rw [List.cons_append, literal_cons (Ne.symm h.1), ih h.2]

lemma literal_escape (s : Str) : Literal (escape s) ↔ Literal s := by
  induction s with
  | nil => rfl
  | cons c s ih =>
    rw [escape, List.flatMap_cons, ← escape]
    rcases escapeChar_cases c with hc | ⟨hc, _, rest, hrest, hmem⟩
    · rw [hc, List.singleton_append, Literal, List.isChain_cons, ← Literal, ih, Literal, Literal,
        List.isChain_cons,
        and_congr_left_iff]
      intro _
      cases s with
      | nil => rfl
      | cons d s =>
        rw [escape, List.flatMap_cons]
        rcases escapeChar_cases d with hd | ⟨hbrace, ⟨hpercent, hhash⟩, rest, hrest, _⟩
        · simp [hd]
        · simp [hrest, Opens, hbrace, hpercent, hhash]
    · rw [hrest, List.cons_append, literal_cons (by decide), literal_append_of_notMem hmem, ih, literal_cons hc]

lemma literal_attrs (before after : Str) (attrs : Attrs) :
    Literal (before ++ (attrs.flatMap writeAttr ++ '>' :: after)) ↔
      Literal before ∧ (∀ a ∈ attrs, Literal a.1 ∧ ∀ v ∈ a.2, Literal v) ∧ Literal after := by
  induction attrs generalizing before with
  | nil => simp [literal_append_cons (m := '>')]
  | cons a attrs ih =>
    obtain ⟨key, value⟩ := a
    cases value with
    | none =>
      have hwrite : before ++ ((((key, none) : List Char × Option (List Char)) :: attrs).flatMap writeAttr ++
          '>' :: after) =
          before ++ ' ' :: (key ++ (attrs.flatMap writeAttr ++ '>' :: after)) := by
        simp [writeAttr]
      rw [hwrite, literal_append_cons (by decide) (by decide) (by decide), ih]
      simp [and_assoc]
    | some value =>
      have hwrite : before ++ ((((key, some value) : List Char × Option (List Char)) :: attrs).flatMap writeAttr ++
          '>' :: after) =
          before ++ ' ' :: (key ++ '=' :: '"' :: (escape value ++
            '"' :: ([] ++ (attrs.flatMap writeAttr ++ '>' :: after)))) := by
        simp [writeAttr]
      rw [hwrite, literal_append_cons (by decide) (by decide) (by decide),
        literal_append_cons (by decide) (by decide) (by decide), literal_cons (by decide),
        literal_append_cons (by decide) (by decide) (by decide), ih, literal_escape]
      simp [and_assoc, Literal]

lemma addText_nil (ns : List Node) : addText [] ns = ns := by simp [addText]

lemma addText_addText (x s : Str) (ns : List Node) : addText x (addText s ns) = addText (x ++ s) ns := by
  by_cases hx : x = []
  · rw [hx, addText_nil, List.nil_append]
  by_cases hs : s = []
  · rw [hs, addText_nil, List.append_nil]
  have hxs : x ++ s ≠ [] := List.append_ne_nil_of_left_ne_nil hx s
  cases ns with
  | nil => rw [addText_new hs (by simp), addText_text hx, addText_new hxs (by simp)]
  | cons n ns =>
    cases n with
    | text t => rw [addText_text hs, addText_text hx, addText_text hxs, List.append_assoc]
    | element name attrs children => rw [addText_new hs (by simp), addText_text hx, addText_new hxs (by simp)]

lemma literalAll_addText (x : Str) {ns : List Node} (h : ∀ t rest, ns ≠ .text t :: rest) :
    LiteralAll (addText x ns) ↔ Literal x ∧ LiteralAll ns := by
  by_cases hx : x = []
  · rw [hx, addText_nil]
    simp [Literal]
  · rw [addText_new hx h]
    rfl

lemma escape_append (s t : Str) : escape (s ++ t) = escape s ++ escape t := List.flatMap_append

lemma literal_startTag (x name after : Str) (attrs : Attrs) :
    Literal (escape x ++ (startTag name attrs ++ after)) ↔
      Literal x ∧ (Literal name ∧ (∀ a ∈ attrs, Literal a.1 ∧ ∀ v ∈ a.2, Literal v)) ∧ Literal after := by
  have hwrite : escape x ++ (startTag name attrs ++ after) =
      escape x ++ '<' :: (name ++ (attrs.flatMap writeAttr ++ '>' :: after)) := by
    simp [startTag]
  rw [hwrite, literal_append_cons (by decide) (by decide) (by decide), literal_escape, literal_attrs, and_assoc]

lemma literal_endTag (before name after : Str) :
    Literal (before ++ (endTag name ++ after)) ↔ Literal before ∧ Literal name ∧ Literal after := by
  have hwrite : before ++ (endTag name ++ after) = before ++ '<' :: '/' :: (name ++ '>' :: after) := by
    simp [endTag]
  rw [hwrite, literal_append_cons (by decide) (by decide) (by decide), literal_cons (by decide),
    literal_append_cons (by decide) (by decide) (by decide)]

def LiteralText (ns : List Node) : Prop :=
  ∀ x, Literal (escape x ++ writeAll ns) ↔ LiteralAll (addText x (normalAll ns))

mutual

lemma literalText_cons (n : Node) (h : n.Valid) (ns : List Node) (hns : LiteralText ns) :
    LiteralText (n :: ns) := by
  intro x
  have hrest : Literal (writeAll ns) ↔ LiteralAll (normalAll ns) := by simpa [escape, addText] using hns []
  cases n with
  | text s =>
    rw [writeAll, Node.write, ← List.append_assoc, ← escape_append, hns, normalAll, addText_addText]
  | element name attrs children =>
    obtain ⟨_, _, hvoid, hchildren⟩ := h
    rw [normalAll, literalAll_addText x (by simp [Node.normal]), writeAll, Node.write]
    by_cases hv : isVoid name = true
    · obtain rfl := hvoid hv
      rw [if_pos hv, literal_startTag, hrest]
      simp [Node.normal, normalAll, LiteralAll, LiteralNode]
    · have hinner : Literal (writeAll children) ↔ LiteralAll (normalAll children) := by
        simpa [escape, addText] using literalText_all children hchildren []
      rw [if_neg hv, List.append_assoc, List.append_assoc, literal_startTag, literal_endTag, hinner, hrest]
      simp only [Node.normal, LiteralAll, LiteralNode]
      tauto

lemma literalText_all (ns : List Node) (h : AllValid ns) : LiteralText ns := by
  cases ns with
  | nil =>
    intro x
    rw [writeAll, List.append_nil, normalAll, literal_escape, literalAll_addText x (by simp)]
    simp [LiteralAll]
  | cons n ns => exact literalText_cons n h.1 ns (literalText_all ns h.2)

end

lemma literal_write (e : Elem) (h : e.Valid) : Literal e.node.write ↔ LiteralNode e.node.normal := by
  have htext := literalText_all [e.node] ⟨Elem.node_valid e h, trivial⟩ []
  have hnormal : normalAll [e.node] = [e.node.normal] := by cases e <;> rfl
  rw [hnormal] at htext
  simpa [escape, addText, writeAll, LiteralAll] using htext

lemma startTag_getLast (name : Str) (attrs : Attrs) : (startTag name attrs).getLast? = some '>' :=
  List.getLast?_concat ..

lemma write_getLast (e : Elem) : e.node.write.getLast? = some '>' := by
  have hnode : ∃ name attrs children, e.node = .element name attrs children := by cases e <;> exact ⟨_, _, _, rfl⟩
  obtain ⟨name, attrs, children, hnode⟩ := hnode
  rw [hnode, Node.write]
  split
  · exact startTag_getLast name attrs
  · rw [endTag, ← List.append_assoc]
    exact List.getLast?_concat ..

def doctype : Str := "<!DOCTYPE html>".toList

def renderDocument (args : List Arg) : Option Arg := do
  match ← renderTag "html".toList args with
  | .record inner => return htmlRecord (doctype ++ (← (← getColumn inner htmlColumn).text?))
  | _ => none

inductive Page where
  | tree (root : Elem)
  | document (attrs : Option (List (Str × AttrValue))) (children : List Child)

namespace Page

def root : Page → Elem
  | tree e => e
  | document attrs children => .tag "html".toList attrs children

def build : Page → Option Arg
  | tree e => e.build
  | document attrs children => do
    renderDocument ((attrs.map (fun attrs => Arg.record (attrArgs attrs))).toList ++ (← buildAll children))

def html : Page → Str
  | tree e => e.node.write
  | document attrs children => doctype ++ (root (document attrs children)).node.write

lemma build_eq (p : Page) (h : p.root.Valid) : p.build = some (htmlRecord p.html) := by
  cases p with
  | tree e => exact Elem.build_eq e h
  | document attrs children =>
    have hroot := Elem.build_eq _ h
    obtain ⟨_, _, _, hchildren⟩ := h
    obtain ⟨args, hargs, _⟩ := buildAll_eq children hchildren
    simp only [root, Elem.build, hargs, bind, Option.bind_some] at hroot
    simp only [build, hargs, bind, Option.bind_some, renderDocument, hroot, htmlRecord, getColumn_htmlRecord, html,
      root, Arg.text?, pure]

lemma literal_html (p : Page) (h : p.root.Valid) : Literal p.html ↔ LiteralNode p.root.node.normal := by
  rw [← literal_write p.root h]
  cases p with
  | tree e => rfl
  | document attrs children => exact literal_append_of_notMem (by decide) _

lemma html_getLast (p : Page) : p.html.getLast? = some '>' := by
  cases p with
  | tree e => exact write_getLast e
  | document attrs children => rw [html, List.getLast?_append, write_getLast, Option.some_or]

end Page

lemma inlineStr_htmlRecord (html : Str) :
    inlineStr (some (.record [(htmlColumn, .string html)])) = .ok (some html) := rfl

lemma compileThenRender_inlineHtml {H : Host} {s : Commands.Templates.State} {source : Str} {out : Except Str Str}
    (hparse : H.syntaxError source = none) (hentry : EntryOk H s source "__inline__".toList .empty) {input : Input}
    {context : Json} (hcontext : contextOf H input = .ok context)
    (hstart : H.start mainName source context = .done out) :
    compileThenRender H s (inlineHtml source) input = out.toOption := by
  obtain ⟨s', hcompile, _, hfind⟩ :=
    compileTemplate_ok s "__inline__".toList .empty hparse
  have hout : compileThenRender H s (inlineHtml source) input =
      (render H s' (compiledTemplate (hashSourceAndPath H source "__inline__".toList)) input).2.bind
        Except.toOption := by
    simp only [compileThenRender, compile, inlineHtml, inlineStr_htmlRecord, bind, Except.bind, modeOf,
      compileSource,
      hcompile]
  rw [hout, render_compiledTemplate hfind hcontext, Option.bind_some, toOption_mapError,
    renderCompiled_snd (environmentOf_main hentry), hstart]
  rfl

lemma rendersItself_of_literal {html : Str} (hliteral : Literal html) (hlast : html.getLast? ≠ some '\n') :
    RendersItself html := by
  intro H hH s hentry input context hcontext
  obtain ⟨hparse, hstart⟩ := hH html hliteral hlast
  exact compileThenRender_inlineHtml hparse hentry hcontext (hstart mainName context)

def engine (render : Json → Str → Str) : Host where
  cwd := [[], "srv".toList]
  hash bytes := bytes.length
  matchesTopic topic other := topic = other
  syntaxError _ := none
  templateNotFound name := name
  couldNotRead := []
  start _ source context := .done (.ok (render context source))
  rendering := .plain

lemma verbatim_engine {render : Json → Str → Str}
    (h : ∀ context source, Literal source → render context source = source) :
    Verbatim (engine render) :=
  fun source hliteral _ => ⟨rfl, fun _ context => by simp only [engine, h context source hliteral]⟩

def noFiles : Files := ⟨fun _ => .error ⟨true, []⟩, fun _ => ⟨false, []⟩⟩

lemma entryOk_init (H : Host) (files : Files) (source baseDir : Str) (loader : Loader) :
    EntryOk H (init files none) source baseDir loader := by
  intro env hfind
  cases hfind

lemma compileThenRender_engine (render : Json → Str → Str) (html : Str) {input : Input} {context : Json}
    (hcontext : contextOf (engine render) input = .ok context) :
    compileThenRender (engine render) (init noFiles none) (inlineHtml html) input = some (render context html) :=
  compileThenRender_inlineHtml rfl (entryOk_init _ _ _ _ _) hcontext rfl

/-- Some engine shows nothing where a template has something to evaluate. -/
lemma literal_of_rendersItself {html : Str} (h : RendersItself html) : Literal html := by
  by_contra hliteral
  let blank : Json → Str → Str := fun _ source => if Literal source then source else []
  have hverbatim : Verbatim (engine blank) := verbatim_engine (fun _ _ hs => if_pos hs)
  have hout := h (engine blank) hverbatim (init noFiles none) (entryOk_init _ _ _ _ _) .empty .null rfl
  rw [compileThenRender_engine blank html rfl, Option.some_inj] at hout
  simp only [blank, hliteral, if_false] at hout
  rw [← hout] at hliteral
  exact hliteral List.IsChain.nil

theorem build_rendersItself_iff (p : Page) (h : p.root.Valid) :
    (∃ html, p.build = some (htmlRecord html) ∧ RendersItself html) ↔ LiteralNode p.root.node.normal := by
  rw [← p.literal_html h, p.build_eq h]
  constructor
  · rintro ⟨html, hhtml, hrenders⟩
    simp only [Option.some_inj, htmlRecord, Arg.record.injEq, List.cons.injEq, Prod.mk.injEq, Arg.string.injEq,
      true_and, and_true] at hhtml
    exact hhtml ▸ literal_of_rendersItself hrenders
  · intro hliteral
    exact ⟨_, rfl, rendersItself_of_literal hliteral (by simp [p.html_getLast])⟩

/-- Each `{{ name }}` replaced, the characters after its first one being skipped. -/
def fillName (value : Str) : Nat → Str → Str
  | _, [] => []
  | skipped + 1, _ :: cs => fillName value skipped cs
  | 0, c :: cs =>
    if "{{ name }}".toList.isPrefixOf (c :: cs) then value ++ fillName value 9 cs else c :: fillName value 0 cs

def nameOf : Json → Str
  | .object [(_, .string name)] => name
  | _ => []

lemma fillName_literal {s : Str} (h : Literal s) (value : Str) : fillName value 0 s = s := by
  induction s with
  | nil => rfl
  | cons c s ih =>
    have hopen : "{{ name }}".toList.isPrefixOf (c :: s) = false := by
      rw [Bool.eq_false_iff]
      intro hopen
      obtain ⟨rest, hrest⟩ := List.isPrefixOf_iff_prefix.mp hopen
      rw [← hrest] at h
      exact absurd (List.isChain_cons_cons.mp h).1 (by decide)
    have hs : Literal s := (List.isChain_cons.mp h).2
    rw [fillName, hopen, ih hs]
    rfl

def greeting : Page := .tree (.tag "p".toList none [.text "{{ name }}".toList])

def greeter : Host := engine (fun context => fillName (nameOf context) 0)

lemma greeting_build : greeting.build = some (htmlRecord "<p>{{ name }}</p>".toList) := rfl

lemma greeting_run : compileThenRender greeter (init noFiles none) (inlineHtml "<p>{{ name }}</p>".toList)
    (.value (.record [("name".toList, .string "Bob".toList)])) = some "<p>Bob</p>".toList := by
  have hcontext : contextOf greeter (.value (.record [("name".toList, .string "Bob".toList)])) =
      .ok (.object [("name".toList, .string "Bob".toList)]) := rfl
  exact compileThenRender_engine _ _ hcontext

theorem greeting_evaluated :
    greeting.root.Valid ∧ ¬ ∃ html, greeting.build = some (htmlRecord html) ∧ RendersItself html := by
  refine ⟨⟨by decide, by decide, ⟨nofun, List.Pairwise.nil⟩, trivial, trivial⟩, ?_⟩
  rintro ⟨html, hbuild, hrenders⟩
  obtain rfl : "<p>{{ name }}</p>".toList = html := by
    have hhtml := greeting_build.symm.trans hbuild
    simpa only [Option.some_inj, htmlRecord, Arg.record.injEq, List.cons.injEq, Prod.mk.injEq, Arg.string.injEq,
      true_and, and_true] using hhtml
  have hout := hrenders greeter
    (verbatim_engine (fun context _ hliteral => fillName_literal hliteral (nameOf context)))
    (init noFiles none) (entryOk_init _ _ _ _ _) (.value (.record [("name".toList, .string "Bob".toList)])) _ rfl
  rw [greeting_run, Option.some_inj] at hout
  exact absurd hout (by decide)

theorem build_rendersItself_hostile :
    ∃ html, (Page.document none [.element hostile]).build = some (htmlRecord html) ∧ RendersItself html := by
  refine (build_rendersItself_iff (.document none [.element hostile]) ?_).mpr ?_
  · exact ⟨by decide, by decide, ⟨nofun, List.Pairwise.nil⟩, hostile_valid, trivial⟩
  · have htext : Literal "</div><script>&amp;".toList := by decide
    refine ⟨by decide, nofun, ⟨by decide, ?_, htext, ⟨by decide, nofun, trivial⟩, trivial⟩, trivial⟩
    exact List.forall_mem_cons.mpr ⟨by decide, List.forall_mem_cons.mpr ⟨by decide,
      List.forall_mem_cons.mpr ⟨by decide, nofun⟩⟩⟩

end HttpNu.Stdlib.Html
