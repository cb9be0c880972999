import HttpNu.Library.Template
import HttpNu.Stdlib.HtmlTemplate

/-! The control flow of the HTML DSL: its trees as templates, and as the trees that they expand to. -/

namespace HttpNu.Stdlib.Html

open Text Library Library.Html Library.Template Commands.Templates

/-- The binding is a record, of which the first column counts. -/
def _for (binding : List (Str × Arg)) (body : List Arg) : Option Arg := do
  let var := (← binding.head?).1
  let collection ← (← binding.head?).2.text?
  let children ← eachToChildren body
  return htmlRecord (braced ("% for ".toList ++ var ++ " in ".toList ++ collection ++ " %".toList) ++ children ++
    braced "% endfor %".toList)

def _if (cond : Str) (body : List Arg) : Option Arg := do
  let children ← eachToChildren body
  return htmlRecord (braced ("% if ".toList ++ cond ++ " %".toList) ++ children ++ braced "% endif %".toList)

def _var (expr : Str) : Arg := htmlRecord (braced (braced (" ".toList ++ expr ++ " ".toList)))

/-- A tree of calls of the DSL, with its control flow and with HTML that is given as such. -/
inductive Part where
  | text (s : Str)
  | raw (html : Str)
  | list (items : List Part)
  | closure (result : Part)
  | tag (name : Str) (attrs : Option (List (Str × AttrValue))) (children : List Part)
  | void (name : Str) (attrs : Option (List (Str × AttrValue)))
  | var (expr : Str)
  | loop (var collection : Str) (body : List Part)
  | cond (test : Str) (body : List Part)

mutual

def Part.build : Part → Option Arg
  | .text s => some (.string s)
  | .raw html => some (htmlRecord html)
  | .list items => (buildParts items).map .list
  | .closure result => result.build.map .closure
  | .tag name attrs children => do
    renderTag name ((attrs.map (fun attrs => Arg.record (attrArgs attrs))).toList ++ (← buildParts children))
  | .void name attrs => renderVoidTag name (attrs.map attrArgs)
  | .var expr => some (_var expr)
  | .loop var collection body => do _for [(var, .string collection)] (← buildParts body)
  | .cond test body => do _if test (← buildParts body)

def buildParts : List Part → Option (List Arg)
  | [] => some []
  | p :: ps => do return (← p.build) :: (← buildParts ps)

end

def chars (s : Str) : List Item := s.map .char

mutual

def Part.items : Part → List Item
  | .text s => chars (escape s)
  | .raw html => chars html
  | .list items => itemsAll items
  | .closure result => result.items
  | .tag name attrs children =>
    chars (startTag name (writtenAttrs (attrs.getD []))) ++ (itemsAll children ++ chars (endTag name))
  | .void name attrs => chars (startTag name (writtenAttrs (attrs.getD [])))
  | .var expr => [.value expr]
  | .loop var collection body => [.loop var collection (itemsAll body)]
  | .cond test body => [.cond test (itemsAll body)]

def itemsAll : List Part → List Item
  | [] => []
  | p :: ps => p.items ++ itemsAll ps

end

section

variable {Scope : Type} (L : Language Scope Str)

mutual

/-- The tree without control flow: each body once for every scope of its loop, values as the HTML they are. -/
def Part.expand : Part → Scope → Except Str Part
  | .text s, _ => .ok (.text s)
  | .raw html, _ => .ok (.raw html)
  | .list items, scope => do return .list (← expandAll items scope)
  | .closure result, scope => do return .closure (← result.expand scope)
  | .tag name attrs children, scope => do return .tag name attrs (← expandAll children scope)
  | .void name attrs, _ => .ok (.void name attrs)
  | .var expr, scope => do return .raw (← L.value expr scope)
  | .loop var collection body, scope => do
    return .list (← (← L.each var collection scope).mapM (expandAll body)).flatten
  | .cond test body, scope =>
    do if ← L.holds test scope then return .list (← expandAll body scope) else return .list []

def expandAll : List Part → Scope → Except Str (List Part)
  | [], _ => .ok []
  | p :: ps, scope => do return (← p.expand scope) :: (← expandAll ps scope)

end

end

mutual

def Part.Valid : Part → Prop
  | .text _ => True
  | .raw _ => True
  | .list items => ValidParts items
  | .closure result => result.Valid
  | .tag _ attrs children => (∀ a ∈ attrs.getD [], ValidAttr a) ∧ ValidParts children
  | .void _ attrs => ∀ a ∈ attrs.getD [], ValidAttr a
  | .var _ => True
  | .loop var _ body => ' ' ∉ var ∧ ValidParts body
  | .cond _ body => ValidParts body

def ValidParts : List Part → Prop
  | [] => True
  | p :: ps => p.Valid ∧ ValidParts ps

end

/-- A call of the DSL; its record can be given to `.mj compile --inline`. -/
def Part.IsCall : Part → Prop
  | .text _ => False
  | .raw _ => False
  | .list _ => False
  | .closure _ => False
  | _ => True

lemma tokensAll_append (is js : List Item) : tokensAll (is ++ js) = tokensAll is ++ tokensAll js := by
  induction is with
  | nil => rfl
  | cons i is ih => rw [List.cons_append, tokensAll, tokensAll, ih, List.append_assoc]

lemma writeAll_append (is js : List Item) :
    Template.writeAll (is ++ js) = Template.writeAll is ++ Template.writeAll js := by
  rw [Template.writeAll, tokensAll_append, List.flatMap_append, ← Template.writeAll, ← Template.writeAll]

@[simp] lemma writeAll_chars (s : Str) : Template.writeAll (chars s) = s := by
  induction s with
  | nil => rfl
  | cons c s ih =>
    rw [chars, List.map_cons, ← chars, ← List.singleton_append, writeAll_append, ih]
    rfl

lemma writeAll_loop (var collection : Str) (body : List Item) :
    Template.writeAll [.loop var collection body] =
      braced ("% for ".toList ++ var ++ " in ".toList ++ collection ++ " %".toList) ++ Template.writeAll body ++
        braced "% endfor %".toList := by
  simp [Template.writeAll, tokensAll, Item.tokens, Block.tokens, Token.write, Block.keyword,
    Block.head, Block.closer,
    Kind.opening, Kind.closing, pad, braced]

lemma writeAll_cond (test : Str) (body : List Item) :
    Template.writeAll [.cond test body] = braced ("% if ".toList ++ test ++ " %".toList) ++
      Template.writeAll body ++
      braced "% endif %".toList := by
  simp [Template.writeAll, tokensAll, Item.tokens, Block.tokens, Token.write, Block.keyword,
    Block.head, Block.closer,
    Kind.opening, Kind.closing, pad, braced]

lemma writeAll_value (expr : Str) :
    Template.writeAll [.value expr] = braced (braced (" ".toList ++ expr ++ " ".toList)) := by
  simp [Template.writeAll, tokensAll, Item.tokens, Token.write, Kind.opening, Kind.closing, pad, braced]

lemma toChildren_htmlRecord (html : Str) : toChildren (htmlRecord html) = some html := by
  rw [htmlRecord, toChildren, getColumn_htmlRecord]
  rfl

lemma isContent_htmlRecord (html : Str) : IsContent (htmlRecord html) := by
  intro fields hfields
  obtain rfl := Arg.record.inj hfields
  rw [getColumn_htmlRecord]
  exact Option.some_ne_none _

structure Builds (arg : Arg) (isCall : Prop) (text : Str) : Prop where
  content : toChildren arg = some text
  notAttrs : IsContent arg
  record : isCall → arg = htmlRecord text

lemma builds_htmlRecord (isCall : Prop) (text : Str) : Builds (htmlRecord text) isCall text :=
  ⟨toChildren_htmlRecord text, isContent_htmlRecord text, fun _ => rfl⟩

mutual

lemma Part.build_eq (p : Part) (h : p.Valid) :
    ∃ arg, p.build = some arg ∧ Builds arg p.IsCall (Template.writeAll p.items) := by
  cases p with
  | text s =>
    refine ⟨.string s, rfl, by rw [toChildren, escapeHtml_eq, Part.items, writeAll_chars], ?_, False.elim⟩
    intro fields hfields
    cases hfields
  | raw html => exact ⟨htmlRecord html, rfl, by rw [Part.items, writeAll_chars]; exact builds_htmlRecord _ _⟩
  | list items =>
    obtain ⟨args, hargs, hwrite, _⟩ := buildParts_eq items h
    refine ⟨.list args, by rw [Part.build, hargs]; rfl, by rw [toChildren, hwrite, Part.items], ?_, False.elim⟩
    intro fields hfields
    cases hfields
  | closure result =>
    obtain ⟨arg, harg, hbuilds⟩ := result.build_eq h
    refine ⟨.closure arg, by rw [Part.build, harg]; rfl, by rw [toChildren, hbuilds.content, Part.items],
      ?_, False.elim⟩
    intro fields hfields
    cases hfields
  | tag name attrs children =>
    obtain ⟨args, hargs, hwrite, hsplit⟩ := buildParts_eq children h.2
    have hcall : splitArgs ((attrs.map (fun attrs => Arg.record (attrArgs attrs))).toList ++ args) =
        (attrArgs (attrs.getD []), args) := by
      cases attrs with
      | none => exact hsplit
      | some attrs => exact splitArgs_attrs h.1 args
    have htext : Template.writeAll (Part.tag name attrs children).items =
        '<' :: name ++ (writtenAttrs (attrs.getD [])).flatMap writeAttr ++ '>' ::
          Template.writeAll (itemsAll children) ++ '<' :: '/' :: name ++ ['>'] := by
      simp [Part.items, writeAll_append, startTag, endTag]
    refine ⟨htmlRecord (Template.writeAll (Part.tag name attrs children).items), ?_, builds_htmlRecord _ _⟩
    simp only [Part.build, hargs, bind, Option.bind_some, renderTag, hcall, hwrite,
      attrsToString_args h.1, pure, htext]
  | void name attrs =>
    have hargs : (attrs.map attrArgs).getD [] = attrArgs (attrs.getD []) := by cases attrs <;> rfl
    refine ⟨htmlRecord (Template.writeAll (Part.void name attrs).items), ?_, builds_htmlRecord _ _⟩
    simp only [Part.build, renderVoidTag, hargs, attrsToString_args h, bind, Option.bind_some, pure, Part.items,
      writeAll_chars, startTag]
  | var expr => exact ⟨_var expr, rfl, by rw [Part.items, writeAll_value]; exact builds_htmlRecord _ _⟩
  | loop var collection body =>
    obtain ⟨args, hargs, hwrite, _⟩ := buildParts_eq body h.2
    refine ⟨htmlRecord (Template.writeAll (Part.loop var collection body).items), ?_, builds_htmlRecord _ _⟩
    simp only [Part.build, hargs, bind, Option.bind_some, _for, List.head?_cons, Arg.text?, hwrite,
      pure, Part.items,
      writeAll_loop]
  | cond test body =>
    obtain ⟨args, hargs, hwrite, _⟩ := buildParts_eq body h
    refine ⟨htmlRecord (Template.writeAll (Part.cond test body).items), ?_, builds_htmlRecord _ _⟩
    simp only [Part.build, hargs, bind, Option.bind_some, _if, hwrite, pure, Part.items, writeAll_cond]

lemma buildParts_eq (ps : List Part) (h : ValidParts ps) :
    ∃ args, buildParts ps = some args ∧ eachToChildren args = some (Template.writeAll (itemsAll ps)) ∧
      splitArgs args = ([], args) := by
  cases ps with
  | nil => exact ⟨[], rfl, rfl, rfl⟩
  | cons p ps =>
    obtain ⟨arg, harg, hbuilds⟩ := p.build_eq h.1
    obtain ⟨args, hargs, hwrites, _⟩ := buildParts_eq ps h.2
    refine ⟨arg :: args, by rw [buildParts, harg, hargs]; rfl, ?_, splitArgs_content hbuilds.notAttrs args⟩
    rw [eachToChildren, hbuilds.content, hwrites, itemsAll, writeAll_append]
    rfl

end

section

variable {Scope : Type} (L : Language Scope Str)

lemma renderAll_append (is js : List Item) (scope : Scope) :
    L.renderAll (is ++ js) scope = do return (← L.renderAll is scope) ++ (← L.renderAll js scope) := by
  induction is with
  | nil => exact (id_map (L.renderAll js scope)).symm
  | cons i is ih =>
    rw [List.cons_append, Language.renderAll, Language.renderAll, ih]
    simp only [bind_assoc, pure_bind, List.append_assoc]

lemma renderAll_single (i : Item) (scope : Scope) : L.renderAll [i] scope = L.render i scope := by
  have hnil : L.renderAll [] scope = pure [] := rfl
  rw [Language.renderAll, hnil]
  simp only [pure_bind, List.append_nil, bind_pure]

lemma renderAll_chars (s : Str) (scope : Scope) : L.renderAll (chars s) scope = pure s := by
  induction s with
  | nil => rfl
  | cons c s ih =>
    rw [chars, List.map_cons, ← chars, Language.renderAll, ih]
    rfl

lemma mapM_map_eq {α β γ : Type} (f : α → Except Str β) (g : β → γ) (l : List α) :
    l.mapM (fun a => g <$> f a) = List.map g <$> l.mapM f := by
  induction l with
  | nil => rfl
  | cons a l ih =>
    rw [List.mapM_cons, List.mapM_cons, ih]
    simp

def Part.html (p : Part) : Str := Template.writeAll p.items

def htmlAll (ps : List Part) : Str := Template.writeAll (itemsAll ps)

lemma itemsAll_append (ps qs : List Part) : itemsAll (ps ++ qs) = itemsAll ps ++ itemsAll qs := by
  induction ps with
  | nil => rfl
  | cons p ps ih => rw [List.cons_append, itemsAll, itemsAll, ih, List.append_assoc]

lemma htmlAll_cons (p : Part) (ps : List Part) : htmlAll (p :: ps) = p.html ++ htmlAll ps := by
  rw [htmlAll, itemsAll, writeAll_append, ← Part.html, ← htmlAll]

lemma htmlAll_flatten (pss : List (List Part)) : htmlAll pss.flatten = (pss.map htmlAll).flatten := by
  induction pss with
  | nil => rfl
  | cons ps pss ih =>
    rw [List.flatten_cons, htmlAll, itemsAll_append, writeAll_append, ← htmlAll, ← htmlAll, ih]
    rfl

lemma Part.html_list (items : List Part) : (Part.list items).html = htmlAll items := rfl

lemma Part.html_closure (result : Part) : (Part.closure result).html = result.html := rfl

lemma Part.html_tag (name : Str) (attrs : Option (List (Str × AttrValue))) (children : List Part) :
    (Part.tag name attrs children).html =
      startTag name (writtenAttrs (attrs.getD [])) ++ (htmlAll children ++ endTag name) := by
  rw [html, items, writeAll_append, writeAll_append, writeAll_chars, writeAll_chars, htmlAll]

mutual

lemma Part.renderAll_items (p : Part) (scope : Scope) :
    L.renderAll p.items scope = Part.html <$> p.expand L scope := by
  cases p with
  | text s => exact (renderAll_chars L (escape s) scope).trans (congrArg pure (writeAll_chars (escape s)).symm)
  | raw html => exact (renderAll_chars L html scope).trans (congrArg pure (writeAll_chars html).symm)
  | list items =>
    rw [Part.items, renderAll_itemsAll items scope, Part.expand]
    simp only [bind_pure_comp, Functor.map_map, Part.html_list]
  | closure result =>
    rw [Part.items, Part.renderAll_items result scope, Part.expand]
    simp only [bind_pure_comp, Functor.map_map, Part.html_closure]
  | tag name attrs children =>
    rw [Part.items, renderAll_append, renderAll_append, renderAll_chars, renderAll_chars,
      renderAll_itemsAll children scope, Part.expand]
    simp only [bind_pure_comp, Functor.map_map, Part.html_tag, pure_bind, map_pure]
  | void name attrs => exact (renderAll_chars L _ scope).trans (congrArg pure (writeAll_chars _).symm)
  | var expr =>
    rw [Part.items, renderAll_single, Language.render, Part.expand]
    simp only [bind_pure_comp, Functor.map_map, Part.html, Part.items, writeAll_chars, id_map']
  | loop var collection body =>
    have hbody : L.renderAll (itemsAll body) = fun scope => htmlAll <$> expandAll L body scope :=
      funext (renderAll_itemsAll body)
    rw [Part.items, renderAll_single, Language.render, Part.expand, hbody]
    simp only [mapM_map_eq, bind_pure_comp, Functor.map_map, map_bind, Part.html_list, htmlAll_flatten]
  | cond test body =>
    rw [Part.items, renderAll_single, Language.render, renderAll_itemsAll body scope, Part.expand]
    simp only [map_bind]
    congr 1
    funext shown
    cases shown with
    | false => rfl
    | true =>
      simp only [if_true, bind_pure_comp, Functor.map_map, Part.html_list]

lemma renderAll_itemsAll (ps : List Part) (scope : Scope) :
    L.renderAll (itemsAll ps) scope = htmlAll <$> expandAll L ps scope := by
  cases ps with
  | nil => rfl
  | cons p ps =>
    rw [itemsAll, renderAll_append, Part.renderAll_items p scope, renderAll_itemsAll ps scope, expandAll]
    simp only [bind_pure_comp, Functor.map_map, map_bind, bind_map_left, htmlAll_cons]

end

mutual

/-- Nothing of the tree is left to a template. -/
def Part.Plain : Part → Prop
  | .list items => AllPlain items
  | .closure result => result.Plain
  | .tag _ _ children => AllPlain children
  | .var _ => False
  | .loop _ _ _ => False
  | .cond _ _ => False
  | _ => True

def AllPlain : List Part → Prop
  | [] => True
  | p :: ps => p.Plain ∧ AllPlain ps

end

lemma allPlain_append {ps qs : List Part} : AllPlain (ps ++ qs) ↔ AllPlain ps ∧ AllPlain qs := by
  induction ps with
  | nil => simp [AllPlain]
  | cons p ps ih => simp [AllPlain, ih, and_assoc]

lemma validParts_append {ps qs : List Part} : ValidParts (ps ++ qs) ↔ ValidParts ps ∧ ValidParts qs := by
  induction ps with
  | nil => simp [ValidParts]
  | cons p ps ih => simp [ValidParts, ih, and_assoc]

lemma bind_eq_ok {α β : Type} {x : Except Str α} {f : α → Except Str β} {b : β} :
    x >>= f = .ok b ↔ ∃ a, x = .ok a ∧ f a = .ok b := by
  cases x with
  | error e =>
    constructor
    · intro h
      cases h
    · rintro ⟨a, ha, _⟩
      cases ha
  | ok a =>
    constructor
    · exact fun h => ⟨a, rfl, h⟩
    · rintro ⟨_, h, hf⟩
      exact Except.ok.inj h ▸ hf

lemma mem_mapM_ok {α β : Type} {f : α → Except Str β} {l : List α} {bs : List β} (h : l.mapM f = .ok bs) {b : β}
    (hb : b ∈ bs) : ∃ a, f a = .ok b := by
  induction l generalizing bs with
  | nil =>
    obtain rfl := Except.ok.inj h
    cases hb
  | cons a l ih =>
    rw [List.mapM_cons] at h
    obtain ⟨c, hc, h⟩ := bind_eq_ok.mp h
    obtain ⟨cs, hcs, h⟩ := bind_eq_ok.mp h
    obtain rfl := Except.ok.inj h
    rcases List.mem_cons.mp hb with rfl | hb
    · exact ⟨a, hc⟩
    · exact ih hcs hb

lemma plain_flatten {pss : List (List Part)} (h : ∀ ps ∈ pss, ValidParts ps ∧ AllPlain ps) :
    ValidParts pss.flatten ∧ AllPlain pss.flatten := by
  induction pss with
  | nil => exact ⟨trivial, trivial⟩
  | cons ps pss ih =>
    obtain ⟨hvalid, hplain⟩ := h ps List.mem_cons_self
    obtain ⟨hvalids, hplains⟩ := ih (fun qs hqs => h qs (List.mem_cons_of_mem ps hqs))
    exact ⟨validParts_append.mpr ⟨hvalid, hvalids⟩, allPlain_append.mpr ⟨hplain, hplains⟩⟩

mutual

lemma Part.expand_plain (p : Part) (h : p.Valid) {scope : Scope} {q : Part} (hq : p.expand L scope = .ok q) :
    q.Valid ∧ q.Plain := by
  cases p with
  | text s =>
    obtain rfl := Except.ok.inj hq
    exact ⟨trivial, trivial⟩
  | raw html =>
    obtain rfl := Except.ok.inj hq
    exact ⟨trivial, trivial⟩
  | list items =>
    obtain ⟨qs, hqs, hq⟩ := bind_eq_ok.mp hq
    obtain rfl := Except.ok.inj hq
    exact expandAll_plain items h hqs
  | closure result =>
    obtain ⟨r, hr, hq⟩ := bind_eq_ok.mp hq
    obtain rfl := Except.ok.inj hq
    obtain ⟨hvalid, hplain⟩ := result.expand_plain h hr
    exact ⟨hvalid, hplain⟩
  | tag name attrs children =>
    obtain ⟨qs, hqs, hq⟩ := bind_eq_ok.mp hq
    obtain rfl := Except.ok.inj hq
    obtain ⟨hvalid, hplain⟩ := expandAll_plain children h.2 hqs
    exact ⟨⟨h.1, hvalid⟩, hplain⟩
  | void name attrs =>
    obtain rfl := Except.ok.inj hq
    exact ⟨h, trivial⟩
  | var expr =>
    obtain ⟨text, _, hq⟩ := bind_eq_ok.mp hq
    obtain rfl := Except.ok.inj hq
    exact ⟨trivial, trivial⟩
  | loop var collection body =>
    obtain ⟨scopes, _, hq⟩ := bind_eq_ok.mp hq
    obtain ⟨qss, hqss, hq⟩ := bind_eq_ok.mp hq
    obtain rfl := Except.ok.inj hq
    apply plain_flatten
    intro qs hqs
    obtain ⟨inner, hinner⟩ := mem_mapM_ok hqss hqs
    exact expandAll_plain body h.2 hinner
  | cond test body =>
    obtain ⟨shown, _, hq⟩ := bind_eq_ok.mp hq
    cases shown with
    | false =>
      obtain rfl := Except.ok.inj hq
      exact ⟨trivial, trivial⟩
    | true =>
      obtain ⟨qs, hqs, hq⟩ := bind_eq_ok.mp hq
      obtain rfl := Except.ok.inj hq
      exact expandAll_plain body h hqs

lemma expandAll_plain (ps : List Part) (h : ValidParts ps) {scope : Scope} {qs : List Part}
    (hqs : expandAll L ps scope = .ok qs) : ValidParts qs ∧ AllPlain qs := by
  cases ps with
  | nil =>
    obtain rfl := Except.ok.inj hqs
    exact ⟨trivial, trivial⟩
  | cons p ps =>
    obtain ⟨r, hr, hqs⟩ := bind_eq_ok.mp hqs
    obtain ⟨rs, hrs, hqs⟩ := bind_eq_ok.mp hqs
    obtain rfl := Except.ok.inj hqs
    obtain ⟨hvalid, hplain⟩ := p.expand_plain h.1 hr
    obtain ⟨hvalids, hplains⟩ := expandAll_plain ps h.2 hrs
    exact ⟨⟨hvalid, hvalids⟩, hplain, hplains⟩

end

end

lemma allReadable_append {is js : List Item} : AllReadable (is ++ js) ↔ AllReadable is ∧ AllReadable js := by
  induction is with
  | nil => simp [AllReadable]
  | cons i is ih => simp [AllReadable, ih, and_assoc]

lemma readable_chars (s : Str) : AllReadable (chars s) := by
  induction s with
  | nil => trivial
  | cons c s ih => exact ⟨trivial, ih⟩

section

variable {Scope : Type} {L : Language Scope Str}

lemma acceptsAll_append {is js : List Item} : L.AcceptsAll (is ++ js) ↔ L.AcceptsAll is ∧ L.AcceptsAll js := by
  induction is with
  | nil => simp [Language.AcceptsAll]
  | cons i is ih => simp [Language.AcceptsAll, ih, and_assoc]

variable (L)

lemma acceptsAll_chars (s : Str) : L.AcceptsAll (chars s) := by
  induction s with
  | nil => trivial
  | cons c s ih => exact ⟨trivial, ih⟩

lemma acceptsAll_tag (name : Str) (attrs : Option (List (Str × AttrValue))) {children : List Part}
    (h : L.AcceptsAll (itemsAll children)) : L.AcceptsAll (Part.tag name attrs children).items :=
  acceptsAll_append.mpr ⟨acceptsAll_chars L _, acceptsAll_append.mpr ⟨h, acceptsAll_chars L _⟩⟩

end

mutual

lemma Part.items_readable (p : Part) (h : p.Valid) : AllReadable p.items := by
  cases p with
  | text s => exact readable_chars _
  | raw html => exact readable_chars html
  | list items => exact itemsAll_readable items h
  | closure result => exact result.items_readable h
  | tag name attrs children =>
    exact allReadable_append.mpr ⟨readable_chars _,
      allReadable_append.mpr ⟨itemsAll_readable children h.2, readable_chars _⟩⟩
  | void name attrs => exact readable_chars _
  | var expr => exact ⟨trivial, trivial⟩
  | loop var collection body => exact ⟨⟨h.1, itemsAll_readable body h.2⟩, trivial⟩
  | cond test body => exact ⟨itemsAll_readable body h, trivial⟩

lemma itemsAll_readable (ps : List Part) (h : ValidParts ps) : AllReadable (itemsAll ps) := by
  cases ps with
  | nil => trivial
  | cons p ps => exact allReadable_append.mpr ⟨p.items_readable h.1, itemsAll_readable ps h.2⟩

end

lemma Part.html_getLast (p : Part) (h : p.IsCall) : p.html.getLast? ≠ some '\n' := by
  cases p with
  | text s => exact h.elim
  | raw html => exact h.elim
  | list items => exact h.elim
  | closure result => exact h.elim
  | tag name attrs children =>
    have hlast : (endTag name).getLast? = some '>' := List.getLast?_concat ..
    simp [html_tag, List.getLast?_append, hlast]
  | void name attrs => simp [html, items, startTag_getLast]
  | var expr =>
    rw [html, items, writeAll_value, braced_getLast]
    simp
  | loop var collection body =>
    rw [html, items, writeAll_loop, List.getLast?_append, braced_getLast]
    simp
  | cond test body =>
    rw [html, items, writeAll_cond, List.getLast?_append, braced_getLast]
    simp

/-- The engine reads the text of a template, and shows what the language says. -/
structure Speaks {Scope : Type} (L : Language Scope Str) (scope : Json → Scope) (H : Host) : Prop where
  parses : ∀ source items, Template.parse source = some items → L.AcceptsAll items →
    source.getLast? ≠ some '\n' → H.syntaxError source = none
  shows : ∀ source items, Template.parse source = some items → L.AcceptsAll items →
    source.getLast? ≠ some '\n' → ∀ context,
      H.start mainName source context = .done (L.renderAll items (scope context))

/-- Compiled and rendered, a tree with control flow is the HTML that the DSL makes at once of the tree it expands
to. -/
theorem compiled_flow {Scope : Type} {L : Language Scope Str} {scope : Json → Scope} {H : Host}
    (hH : Speaks L scope H)
    {p : Part} (hvalid : p.Valid) (hcall : p.IsCall) (haccepts : L.AcceptsAll p.items)
    (hlegible : Legible (tokensAll p.items)) :
    ∃ html, p.build = some (htmlRecord html) ∧
      (∀ s, EntryOk H s html "__inline__".toList .empty → ∀ input context, contextOf H input = .ok context →
        compileThenRender H s (inlineHtml html) input =
          (p.expand L (scope context)).toOption.bind (fun q => q.build.bind toChildren)) ∧
      ∀ inner q, p.expand L inner = .ok q → q.Plain := by
  obtain ⟨arg, harg, hbuilds⟩ := p.build_eq hvalid
  refine ⟨p.html, by rw [harg, hbuilds.record hcall, Part.html], ?_,
    fun inner q hq => (p.expand_plain L hvalid hq).2⟩
  intro s hentry input context hcontext
  have hparse : Template.parse p.html = some p.items := parse_writeAll (p.items_readable hvalid) hlegible
  have hlast := p.html_getLast hcall
  rw [compileThenRender_inlineHtml (hH.parses _ _ hparse haccepts hlast) hentry hcontext
    (hH.shows _ _ hparse haccepts hlast context), p.renderAll_items L]
  cases hq : p.expand L (scope context) with
  | error e => rfl
  | ok q =>
    obtain ⟨out, hout, hshown⟩ := q.build_eq (p.expand_plain L hvalid hq).1
    exact (congrArg (·.bind toChildren) hout).trans hshown.content |>.symm

def names : Language (List (Str × Json)) Str where
  expression expr := expr ≠ [] && expr.all Char.isAlpha
  target var := var ≠ [] && var.all Char.isAlpha
  iterable expr := expr ≠ [] && expr.all Char.isAlpha
  value expr scope :=
    match scope.find? (fun e => e.1 = expr) with
    | some (_, .string s) => .ok s
    | _ => .error "not a string".toList
  holds expr scope :=
    match scope.find? (fun e => e.1 = expr) with
    | some (_, .bool b) => .ok b
    | _ => .error "not a truth value".toList
  each var expr scope :=
    match scope.find? (fun e => e.1 = expr) with
    | some (_, .array items) => .ok (items.map (fun item => (var, item) :: scope))
    | _ => .error "not a list".toList

def fieldsOf : Json → List (Str × Json)
  | .object fields => fields
  | _ => []

def interpreter {Scope : Type} (L : Language Scope Str) (scope : Json → Scope) : Host where
  cwd := [[], "srv".toList]
  hash bytes := bytes.length
  matchesTopic topic other := topic = other
  syntaxError source := if (Template.parse source).isNone then some "syntax error".toList else none
  templateNotFound name := name
  couldNotRead := []
  start _ source context := .done (((Template.parse source).map (fun items =>
    L.renderAll items (scope context))).getD (.error "syntax error".toList))
  rendering := .plain

lemma interpreter_speaks {Scope : Type} (L : Language Scope Str) (scope : Json → Scope) :
    Speaks L scope (interpreter L scope) := by
  constructor
  case parses =>
    intro source items hparse _ _
    simp only [interpreter, hparse]
    rfl
  case shows =>
    intro source items hparse _ _ context
    simp only [interpreter, hparse, Option.map_some, Option.getD_some]

def listing : Part :=
  .tag "ul".toList (some [("class".toList, .string "a\"b".toList)])
    [.loop "item".toList "items".toList
      [.cond "show".toList [.tag "li".toList none [.text "<".toList, .var "item".toList]]]]

def listed : Value :=
  .record [("show".toList, .bool true), ("items".toList, .list [.string "<b>".toList, .string "c".toList])]

theorem compiled_flow_listing :
    ∃ html, listing.build = some (htmlRecord html) ∧
      compileThenRender (interpreter names fieldsOf) (init noFiles none) (inlineHtml html) (.value listed) =
        some "<ul class=\"a&quot;b\"><li>&lt;<b></li><li>&lt;c</li></ul>".toList := by
  have hclass : ValidAttr ("class".toList, .string "a\"b".toList) := ⟨by decide, by decide, trivial⟩
  have hitem : (Part.tag "li".toList none [.text "<".toList, .var "item".toList]).Valid :=
    ⟨List.forall_mem_nil _, trivial, trivial, trivial⟩
  have hvalid : listing.Valid :=
    ⟨List.forall_mem_singleton.mpr hclass, ⟨by decide, ⟨hitem, trivial⟩, trivial⟩, trivial⟩
  have hvar : names.expression "item".toList = true := by decide
  have hli : names.AcceptsAll (Part.tag "li".toList none [.text "<".toList, .var "item".toList]).items :=
    acceptsAll_tag _ _ _ (acceptsAll_append.mpr ⟨acceptsAll_chars _ _, hvar, trivial⟩)
  have hcond : names.AcceptsAll
      (Part.cond "show".toList [.tag "li".toList none [.text "<".toList, .var "item".toList]]).items :=
    ⟨⟨by decide, acceptsAll_append.mpr ⟨hli, trivial⟩⟩, trivial⟩
  have haccepts : names.AcceptsAll listing.items :=
    acceptsAll_tag _ _ _ ⟨⟨by decide, by decide, acceptsAll_append.mpr ⟨hcond, trivial⟩⟩, trivial⟩
  have hlegible : Legible (tokensAll listing.items) := by decide
  obtain ⟨html, hbuild, hrender, _⟩ :=
    compiled_flow (interpreter_speaks names fieldsOf) hvalid trivial haccepts hlegible
  refine ⟨html, hbuild, ?_⟩
  have hcontext : contextOf (interpreter names fieldsOf) (.value listed) =
    .ok (.object [("show".toList, .bool true),
      ("items".toList, .array [.string "<b>".toList, .string "c".toList])]) := rfl
  rw [hrender _ (entryOk_init _ _ _ _ _) _ _ hcontext]
  rfl

end HttpNu.Stdlib.Html
