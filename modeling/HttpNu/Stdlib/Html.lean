import HttpNu.Library.Html
import HttpNu.Text

/-! The HTML DSL: tags rendered from attribute records and children, and the trees they stand for. -/

namespace HttpNu.Stdlib.Html

open Text Library.Html

/-- The values that the commands take; a closure is known by what it yields when it is called. -/
inductive Arg where
  | string (val : Str)
  | bool (val : Bool)
  | list (vals : List Arg)
  | record (fields : List (Str × Arg))
  | closure (result : Arg)
  | other (text : Str)

def Arg.text? : Arg → Option Str
  | .string val => some val
  | .bool val => some (toString val).toList
  | .other text => some text
  | _ => none

def getColumn (fields : List (Str × Arg)) (col : Str) : Option Arg :=
  (fields.find? (fun e => e.1 = col)).map Prod.snd

def htmlColumn : Str := "__html".toList

/-- `str replace -a`, for a pattern of one character. -/
def strReplaceAll (find : Char) (replace s : Str) : Str := s.flatMap (fun c => if c = find then replace else [c])

def strJoin (separator : String) (strs : List Str) : Str := List.intercalate separator.toList strs

def escapeHtml (s : Str) : Str :=
  let s := strReplaceAll '&' "&amp;".toList s
  let s := strReplaceAll '"' "&quot;".toList s
  let s := strReplaceAll '\'' "&#x27;".toList s
  let s := strReplaceAll '<' "&lt;".toList s
  strReplaceAll '>' "&gt;".toList s

mutual

def toChildren : Arg → Option Str
  | .string val => some (escapeHtml val)
  | .list vals => eachToChildren vals
  | .closure result => toChildren result
  | .record fields =>
    match getColumn fields htmlColumn with
    | some html => html.text?
    | none => some []
  | _ => some []

def eachToChildren : List Arg → Option Str
  | [] => some []
  | v :: vs => do return (← toChildren v) ++ (← eachToChildren vs)

end

def styleDecl (p : Str × Arg) : Option Str := do
  let v ←
    match p.2 with
    | .list vals => (vals.mapM Arg.text?).map (strJoin ", ")
    | v => v.text?
  return p.1 ++ ": ".toList ++ v ++ [';']

def attrValue (key : Str) : Arg → Option Str
  | .record decls => if key = "style".toList then (decls.mapM styleDecl).map (strJoin " ") else none
  | .list vals => if key = "class".toList then (vals.mapM Arg.text?).map (strJoin " ") else none
  | .string val => some val
  | _ => none

def attrToString (attr : Str × Arg) : Option Str :=
  match attr.2 with
  | .bool false => some []
  | .bool true => some attr.1
  | value => (attrValue attr.1 value).map (fun text => attr.1 ++ '=' :: '"' :: escapeHtml text ++ ['"'])

def attrsToString (attrs : List (Str × Arg)) : Option Str := do
  let joined := strJoin " " ((← attrs.mapM attrToString).filter (· ≠ []))
  return if joined = [] then [] else ' ' :: joined

def htmlRecord (html : Str) : Arg := .record [(htmlColumn, .string html)]

/-- The first argument is the attributes if it is a record without `__html`. -/
def splitArgs : List Arg → List (Str × Arg) × List Arg
  | .record fields :: content =>
    if (getColumn fields htmlColumn).isNone then (fields, content) else ([], .record fields :: content)
  | args => ([], args)

def renderTag (tag : Str) (args : List Arg) : Option Arg := do
  let (attrs, content) := splitArgs args
  let children ← eachToChildren content
  let attrsStr ← attrsToString attrs
  return htmlRecord ('<' :: tag ++ attrsStr ++ '>' :: children ++ '<' :: '/' :: tag ++ ['>'])

def renderVoidTag (tag : Str) (attrs : Option (List (Str × Arg))) : Option Arg := do
  let attrsStr ← attrsToString (attrs.getD [])
  return htmlRecord ('<' :: tag ++ attrsStr ++ ['>'])

/-- The value of an attribute: a string, a list for `class`, a record for `style`, or a switch. -/
inductive AttrValue where
  | string (val : Str)
  | classes (items : List Str)
  | style (decls : List (Str × (Str ⊕ List Str)))
  | switch (val : Bool)

mutual

/-- A tree of calls of `render-tag`, with or without attributes, and `render-void-tag`. -/
inductive Elem where
  | tag (name : Str) (attrs : Option (List (Str × AttrValue))) (children : List Child)
  | void (name : Str) (attrs : Option (List (Str × AttrValue)))

inductive Child where
  | text (s : Str)
  | list (items : List Child)
  | closure (result : Child)
  | element (e : Elem)

end

def AttrValue.arg : AttrValue → Arg
  | string val => .string val
  | classes items => .list (items.map .string)
  | style decls => .record (decls.map (fun d => (d.1, d.2.elim .string (fun items => .list (items.map .string)))))
  | switch val => .bool val

def attrArgs (attrs : List (Str × AttrValue)) : List (Str × Arg) := attrs.map (fun a => (a.1, a.2.arg))

mutual

def Elem.build : Elem → Option Arg
  | .tag name attrs children => do
    renderTag name ((attrs.map (fun attrs => Arg.record (attrArgs attrs))).toList ++ (← buildAll children))
  | .void name attrs => renderVoidTag name (attrs.map attrArgs)

def Child.build : Child → Option Arg
  | .text s => some (.string s)
  | .list items => (buildAll items).map .list
  | .closure result => result.build.map .closure
  | .element e => e.build

def buildAll : List Child → Option (List Arg)
  | [] => some []
  | c :: cs => do return (← c.build) :: (← buildAll cs)

end

/-- The value that is written: lists joined, a switch that is off dropped, one that is on without a value. -/
def AttrValue.written : AttrValue → Option (Option Str)
  | string val => some (some val)
  | classes items => some (some (strJoin " " items))
  | style decls => some (some (strJoin " "
      (decls.map (fun d => d.1 ++ ": ".toList ++ d.2.elim id (strJoin ", ") ++ [';']))))
  | switch val => if val then some none else none

def writtenAttrs (attrs : List (Str × AttrValue)) : Attrs :=
  attrs.filterMap (fun a => a.2.written.map (fun value => (a.1, value)))

mutual

/-- The tree that is meant: lists and closures are what they hold. -/
def Elem.node : Elem → Node
  | .tag name attrs children => .element name (writtenAttrs (attrs.getD [])) (nodesAll children)
  | .void name attrs => .element name (writtenAttrs (attrs.getD [])) []

def Child.nodes : Child → List Node
  | .text s => [.text s]
  | .list items => nodesAll items
  | .closure result => result.nodes
  | .element e => [e.node]

def nodesAll : List Child → List Node
  | [] => []
  | c :: cs => c.nodes ++ nodesAll cs

end

/-- A key that HTML can read, other than the mark of content, with a value that it may have. -/
def ValidAttr (a : Str × AttrValue) : Prop :=
  validKey a.1 = true ∧ a.1 ≠ htmlColumn ∧
    match a.2 with
    | .classes _ => a.1 = "class".toList
    | .style _ => a.1 = "style".toList
    | _ => True

def ValidAttrRecord (attrs : List (Str × AttrValue)) : Prop :=
  (∀ a ∈ attrs, ValidAttr a) ∧ attrs.Pairwise (fun a b => sameName a.1 b.1 = false)

mutual

def Elem.Valid : Elem → Prop
  | .tag name attrs children =>
    validName name = true ∧ isVoid name = false ∧ ValidAttrRecord (attrs.getD []) ∧ ValidChildren children
  | .void name attrs => validName name = true ∧ isVoid name = true ∧ ValidAttrRecord (attrs.getD [])

def Child.Valid : Child → Prop
  | .text _ => True
  | .list items => ValidChildren items
  | .closure result => result.Valid
  | .element e => e.Valid

def ValidChildren : List Child → Prop
  | [] => True
  | c :: cs => c.Valid ∧ ValidChildren cs

end

/-- No replacement touches what an earlier one wrote. -/
lemma escapeHtml_eq (s : Str) : escapeHtml s = escape s := by
  simp only [escapeHtml, strReplaceAll, List.flatMap_assoc, escape]
  congr 1
  funext c
  rw [escapeChar]
  split_ifs with hamp hquot hapos hlt hgt
  · subst hamp
    rfl
  · subst hquot
    rfl
  · subst hapos
    rfl
  · subst hlt
    rfl
  · subst hgt
    rfl
  · simp only [List.flatMap_singleton, hquot, hapos, hlt, hgt, if_false]

structure FaithfulEncoding (encode : Str → Str) : Prop where
  onePass : ∀ s, encode s = s.flatMap escapeChar
  noSpecial : ∀ s, ∀ c ∈ encode s, c ∉ ['<', '>', '"', '\'']
  ampersand : ∀ s before rest, encode s = before ++ '&' :: rest → ∃ e ∈ entities, e.1 <+: '&' :: rest
  decoded : ∀ s, unescape (encode s) = s
  append : ∀ s t, encode (s ++ t) = encode s ++ encode t
  injective : Function.Injective encode

theorem escapeHtml_faithful : FaithfulEncoding escapeHtml := by
  have heq : escapeHtml = escape := funext escapeHtml_eq
  rw [heq]
  constructor
  case onePass => exact fun s => rfl
  case noSpecial => exact fun s c hc => special_notMem_escape hc
  case ampersand => exact fun s before rest h => entity_of_escape_eq h
  case decoded => exact unescape_escape
  case append => exact escape_append
  case injective => exact Function.LeftInverse.injective unescape_escape

example : escapeHtml "a &lt; <b>".toList = "a &amp;lt; &lt;b&gt;".toList := by decide

lemma mapM_eq_map {α β : Type} {f : α → Option β} {g : α → β} {l : List α} (h : ∀ a ∈ l, f a = some (g a)) :
    l.mapM f = some (l.map g) := by
  induction l with
  | nil => rfl
  | cons a l ih =>
    rw [List.mapM_cons, h a List.mem_cons_self, ih (fun b hb => h b (List.mem_cons_of_mem a hb))]
    rfl

lemma texts_string (items : List Str) : (items.map Arg.string).mapM Arg.text? = some items := by
  have h : ∀ s ∈ items, (Arg.text? ∘ Arg.string) s = some (id s) := fun _ _ => rfl
  rw [List.mapM_map, mapM_eq_map h, List.map_id]

lemma attrValue_classes (items : List Str) :
    attrValue "class".toList (AttrValue.classes items).arg = some (strJoin " " items) := by
  rw [AttrValue.arg, attrValue, if_pos rfl, texts_string]
  rfl

lemma attrValue_style (decls : List (Str × (Str ⊕ List Str))) :
    attrValue "style".toList (AttrValue.style decls).arg =
      some (strJoin " " (decls.map (fun d => d.1 ++ ": ".toList ++ d.2.elim id (strJoin ", ") ++ [';']))) := by
  have hdecls : (decls.map (fun d => (d.1, d.2.elim Arg.string (fun items => .list (items.map .string))))).mapM
      styleDecl = some (decls.map (fun d => d.1 ++ ": ".toList ++ d.2.elim id (strJoin ", ") ++ [';'])) := by
    rw [List.mapM_map]
    apply mapM_eq_map
    rintro ⟨k, v | items⟩ _
    · rfl
    · simp only [Function.comp, styleDecl, Sum.elim_inr, texts_string]
      rfl
  rw [AttrValue.arg, attrValue, if_pos rfl, hdecls]
  rfl

def AttrValue.Writes (key : Str) (value : AttrValue) : Prop :=
  attrToString (key, value.arg) = some ((value.written.map (fun value => (writeAttr (key, value)).tail)).getD [])

lemma writes_string (key val : Str) : AttrValue.Writes key (.string val) := by
  simp only [AttrValue.Writes, attrToString, AttrValue.arg, attrValue, Option.map_some,
    AttrValue.written, writeAttr, escapeHtml_eq, Option.getD_some]
  rfl

lemma writes_switch (key : Str) (val : Bool) : AttrValue.Writes key (.switch val) := by
  cases val <;> rfl

lemma attrToString_arg {a : Str × AttrValue} (h : ValidAttr a) : a.2.Writes a.1 := by
  obtain ⟨key, value⟩ := a
  obtain ⟨_, _, hkind⟩ := h
  cases value with
  | string val => exact writes_string key val
  | switch val => exact writes_switch key val
  | classes items =>
    obtain rfl : key = "class".toList := hkind
    have hvalue := attrValue_classes items
    rw [AttrValue.arg] at hvalue
    simp only [AttrValue.Writes, attrToString, AttrValue.arg, hvalue, Option.map_some, AttrValue.written,
      writeAttr, escapeHtml_eq,
      Option.getD_some]
    rfl
  | style decls =>
    obtain rfl : key = "style".toList := hkind
    have hvalue := attrValue_style decls
    rw [AttrValue.arg] at hvalue
    simp only [AttrValue.Writes, attrToString, AttrValue.arg, hvalue, Option.map_some, AttrValue.written,
      writeAttr, escapeHtml_eq,
      Option.getD_some]
    rfl

lemma strJoin_space (s : Str) (strs : List Str) :
    strJoin " " (s :: strs) = s ++ strs.flatMap (' ' :: ·) := by
  induction strs generalizing s with
  | nil => simp [strJoin]
  | cons t strs ih =>
    rw [strJoin, List.intercalate_cons_cons, ← strJoin, ih, List.flatMap_cons, List.append_assoc]
    rfl

lemma mem_writtenAttrs {attrs : List (Str × AttrValue)} {w : Str × Option Str} (h : w ∈ writtenAttrs attrs) :
    ∃ a ∈ attrs, a.1 = w.1 ∧ a.2.written = some w.2 := by
  obtain ⟨a, ha, hw⟩ := List.mem_filterMap.mp h
  obtain ⟨value, hvalue, rfl⟩ := Option.map_eq_some_iff.mp hw
  exact ⟨a, ha, rfl, hvalue⟩

lemma writeAttr_tail_ne_nil {w : Str × Option Str} (h : validKey w.1 = true) : (writeAttr w).tail ≠ [] := by
  obtain ⟨key, value⟩ := w
  rw [validKey, Bool.and_eq_true, decide_eq_true_eq] at h
  cases value with
  | none => exact h.1
  | some value => simp [writeAttr]

lemma filter_attrStrings {attrs : List (Str × AttrValue)} (h : ∀ a ∈ attrs, validKey a.1 = true) :
    (attrs.map (fun a => (a.2.written.map (fun value => (writeAttr (a.1, value)).tail)).getD [])).filter (· ≠ []) =
      (writtenAttrs attrs).map (fun w => (writeAttr w).tail) := by
  induction attrs with
  | nil => rfl
  | cons a attrs ih =>
    have hrest := ih (fun b hb => h b (List.mem_cons_of_mem a hb))
    rw [writtenAttrs] at hrest ⊢
    rw [List.map_cons, List.filterMap_cons]
    cases hw : a.2.written with
    | none => simpa using hrest
    | some value =>
      have hne := writeAttr_tail_ne_nil (w := (a.1, value)) (h a List.mem_cons_self)
      simpa [hne] using hrest

lemma flatMap_writeAttr (written : Attrs) :
    written.flatMap writeAttr = (written.map (fun w => (writeAttr w).tail)).flatMap (' ' :: ·) := by
  rw [List.flatMap_map]
  congr 1
  funext w
  obtain ⟨key, value⟩ := w
  cases value <;> rfl

lemma attrsToString_written {attrs : List (Str × AttrValue)} (hkeys : ∀ a ∈ attrs, validKey a.1 = true)
    (h : ∀ a ∈ attrs, a.2.Writes a.1) :
    attrsToString (attrArgs attrs) = some ((writtenAttrs attrs).flatMap writeAttr) := by
  have hstrs : (attrArgs attrs).mapM attrToString =
      some (attrs.map (fun a => (a.2.written.map (fun value => (writeAttr (a.1, value)).tail)).getD [])) := by
    rw [attrArgs, List.mapM_map]
    exact mapM_eq_map h
  simp only [attrsToString, hstrs, bind, Option.bind_some, pure, filter_attrStrings hkeys, flatMap_writeAttr]
  cases hw : writtenAttrs attrs with
  | nil => rfl
  | cons w written =>
    obtain ⟨a, ha, hkey, _⟩ := mem_writtenAttrs (hw ▸ List.mem_cons_self)
    have hne : (writeAttr w).tail ≠ [] := writeAttr_tail_ne_nil (hkey ▸ hkeys a ha)
    rw [List.map_cons, strJoin_space, if_neg (List.append_ne_nil_of_left_ne_nil hne _), List.flatMap_cons]
    rfl

lemma attrsToString_args {attrs : List (Str × AttrValue)} (h : ∀ a ∈ attrs, ValidAttr a) :
    attrsToString (attrArgs attrs) = some ((writtenAttrs attrs).flatMap writeAttr) :=
  attrsToString_written (fun a ha => (h a ha).1) (fun a ha => attrToString_arg (h a ha))

lemma splitArgs_attrs {attrs : List (Str × AttrValue)} (h : ∀ a ∈ attrs, ValidAttr a) (content : List Arg) :
    splitArgs (.record (attrArgs attrs) :: content) = (attrArgs attrs, content) := by
  have hnone : getColumn (attrArgs attrs) htmlColumn = none := by
    rw [getColumn, Option.map_eq_none_iff, List.find?_eq_none]
    intro e he
    obtain ⟨a, ha, rfl⟩ := List.mem_map.mp he
    simpa using (h a ha).2.1
  rw [splitArgs, hnone]
  rfl

def IsContent (arg : Arg) : Prop := ∀ fields, arg = .record fields → getColumn fields htmlColumn ≠ none

lemma splitArgs_content {arg : Arg} (h : IsContent arg) (content : List Arg) :
    splitArgs (arg :: content) = ([], arg :: content) := by
  cases arg with
  | record fields =>
    obtain ⟨html, hhtml⟩ := Option.ne_none_iff_exists'.mp (h fields rfl)
    rw [splitArgs, hhtml]
    rfl
  | _ => rfl

lemma getColumn_htmlRecord (html : Str) :
    getColumn [(htmlColumn, .string html)] htmlColumn = some (.string html) := by
  rw [getColumn, List.find?_cons_of_pos (by simp)]
  rfl

mutual

lemma Elem.build_eq (e : Elem) (h : e.Valid) : e.build = some (htmlRecord e.node.write) := by
  cases e with
  | tag name attrs children =>
    obtain ⟨hname, hvoid, ⟨hattrs, _⟩, hchildren⟩ := h
    obtain ⟨args, hargs, hwrite, hsplit⟩ := buildAll_eq children hchildren
    have hcall : splitArgs ((attrs.map (fun attrs => Arg.record (attrArgs attrs))).toList ++ args) =
        (attrArgs (attrs.getD []), args) := by
      cases attrs with
      | none => exact hsplit
      | some attrs => exact splitArgs_attrs hattrs args
    simp only [Elem.build, hargs, bind, Option.bind_some, renderTag, hcall, hwrite,
      attrsToString_args hattrs, pure,
      Elem.node, Node.write, hvoid, Bool.false_eq_true, if_false, startTag, endTag]
    simp
  | void name attrs =>
    obtain ⟨hname, hvoid, hattrs, _⟩ := h
    have hargs : (attrs.map attrArgs).getD [] = attrArgs (attrs.getD []) := by cases attrs <;> rfl
    simp only [Elem.build, renderVoidTag, hargs, attrsToString_args hattrs, bind, Option.bind_some,
      pure, Elem.node,
      Node.write, hvoid, if_true, startTag]

lemma Child.build_eq (c : Child) (h : c.Valid) :
    ∃ arg, c.build = some arg ∧ toChildren arg = some (writeAll c.nodes) ∧ IsContent arg := by
  cases c with
  | text s => exact ⟨.string s, rfl, by simp [toChildren, escapeHtml_eq, Child.nodes, writeAll, Node.write], nofun⟩
  | list items =>
    obtain ⟨args, hargs, hwrite, _⟩ := buildAll_eq items h
    exact ⟨.list args, by rw [Child.build, hargs]; rfl, by rw [toChildren, hwrite, Child.nodes], nofun⟩
  | closure result =>
    obtain ⟨arg, harg, hwrite, _⟩ := Child.build_eq result h
    exact ⟨.closure arg, by rw [Child.build, harg]; rfl, by rw [toChildren, hwrite, Child.nodes], nofun⟩
  | element e =>
    refine ⟨htmlRecord e.node.write, by rw [Child.build, Elem.build_eq e h], ?_, ?_⟩
    · rw [htmlRecord, toChildren, getColumn_htmlRecord, Child.nodes, writeAll, writeAll, List.append_nil]
      rfl
    · intro fields hfields
      obtain rfl := Arg.record.inj hfields
      rw [getColumn_htmlRecord]
      exact Option.some_ne_none _

lemma buildAll_eq (cs : List Child) (h : ValidChildren cs) :
    ∃ args, buildAll cs = some args ∧ eachToChildren args = some (writeAll (nodesAll cs)) ∧
      splitArgs args = ([], args) := by
  cases cs with
  | nil => exact ⟨[], rfl, rfl, rfl⟩
  | cons c cs =>
    obtain ⟨arg, harg, hwrite, hcontent⟩ := Child.build_eq c h.1
    obtain ⟨args, hargs, hwrites, _⟩ := buildAll_eq cs h.2
    refine ⟨arg :: args, by rw [buildAll, harg, hargs]; rfl, ?_, splitArgs_content hcontent args⟩
    rw [eachToChildren, hwrite, hwrites, nodesAll, writeAll_append]
    rfl

end

lemma validAttrs_written {attrs : List (Str × AttrValue)} (h : ValidAttrRecord attrs) :
    ValidAttrs (writtenAttrs attrs) := by
  obtain ⟨hattrs, hdistinct⟩ := h
  refine ⟨fun w hw => ?_, ?_⟩
  · obtain ⟨a, ha, hkey, _⟩ := mem_writtenAttrs hw
    exact hkey ▸ (hattrs a ha).1
  · rw [writtenAttrs, List.pairwise_filterMap]
    refine hdistinct.imp (fun hab w hw v hv => ?_)
    obtain ⟨_, _, rfl⟩ := Option.map_eq_some_iff.mp hw
    obtain ⟨_, _, rfl⟩ := Option.map_eq_some_iff.mp hv
    exact hab

mutual

lemma Elem.node_valid (e : Elem) (h : e.Valid) : e.node.Valid := by
  cases e with
  | tag name attrs children =>
    obtain ⟨hname, hvoid, hattrs, hchildren⟩ := h
    exact ⟨hname, validAttrs_written hattrs, fun hv => by simp [hvoid] at hv, nodesAll_valid children hchildren⟩
  | void name attrs => exact ⟨h.1, validAttrs_written h.2.2, fun _ => rfl, trivial⟩

lemma Child.nodes_valid (c : Child) (h : c.Valid) : AllValid c.nodes := by
  cases c with
  | text s => exact ⟨trivial, trivial⟩
  | list items => exact nodesAll_valid items h
  | closure result => exact Child.nodes_valid result h
  | element e => exact ⟨Elem.node_valid e h, trivial⟩

lemma nodesAll_valid (cs : List Child) (h : ValidChildren cs) : AllValid (nodesAll cs) := by
  cases cs with
  | nil => trivial
  | cons c cs => exact allValid_append.mpr ⟨Child.nodes_valid c h.1, nodesAll_valid cs h.2⟩

end

theorem parse_build (e : Elem) (h : e.Valid) (hnul : e.node.NulFree) :
    ∃ html, e.build = some (htmlRecord html) ∧ parse html = some [e.node.normal] := by
  refine ⟨e.node.write, Elem.build_eq e h, ?_⟩
  have hvalid : AllValid [e.node] := ⟨Elem.node_valid e h, trivial⟩
  have hparse := parse_writeAll hvalid ⟨hnul, trivial⟩
  have hnormal : normalAll [e.node] = [e.node.normal] := by
    cases e <;> rfl
  rwa [writeAll, writeAll, List.append_nil, hnormal] at hparse

def hostile : Elem :=
  .tag "div".toList
    (some [("title".toList, .string "\"><b onclick=\"x".toList),
      ("class".toList, .classes ["a".toList, "b".toList]),
      ("hidden".toList, .switch true), ("disabled".toList, .switch false)])
    [.text "</div><script>".toList, .list [.closure (.text "&amp;".toList), .element (.void "br".toList none)]]

lemma hostile_valid : hostile.Valid := by
  refine ⟨by decide, by decide, ⟨?_, by decide⟩, trivial, ⟨trivial, ⟨by decide, by decide, ?_⟩, trivial⟩, trivial⟩
  · simp only [Option.getD_some, List.forall_mem_cons]
    exact ⟨⟨by decide, by decide, trivial⟩, ⟨by decide, by decide, rfl⟩, ⟨by decide, by decide, trivial⟩,
      ⟨by decide, by decide, trivial⟩, nofun⟩
  · exact ⟨nofun, List.Pairwise.nil⟩

lemma hostile_nulFree : hostile.node.NulFree := by
  have htext : ∀ s : Str, nul ∉ s → (Node.text s).NulFree := fun _ h => h
  refine ⟨by decide, ?_, htext _ (by decide), htext _ (by decide), ⟨by decide, nofun, trivial⟩, trivial⟩
  simp [writtenAttrs, AttrValue.written]
  decide

theorem parse_build_hostile :
    ∃ html, hostile.build = some (htmlRecord html) ∧ parse html = some [hostile.node.normal] :=
  parse_build hostile hostile_valid hostile_nulFree

/-- NUL in an attribute value is not escaped, and the parser puts the replacement character in its place. -/
theorem parse_build_nul :
    ¬ ∀ e : Elem, e.Valid → ∃ html, e.build = some (htmlRecord html) ∧ parse html = some [e.node.normal] := by
  intro h
  have hvalid : (Elem.void "br".toList (some [("title".toList, .string [nul])])).Valid := by
    refine ⟨by decide, by decide, ?_, List.pairwise_singleton _ _⟩
    exact List.forall_mem_singleton.mpr ⟨by decide, by decide, trivial⟩
  obtain ⟨html, hbuild, hparse⟩ := h _ hvalid
  have hhtml : (Elem.void "br".toList (some [("title".toList, .string [nul])])).build =
      some (htmlRecord ("<br title=\"".toList ++ nul :: "\">".toList)) := rfl
  have hread : parse ("<br title=\"".toList ++ nul :: "\">".toList) =
      some [.element "br".toList [("title".toList, some [Char.ofNat 0xfffd])] []] := rfl
  rw [hhtml] at hbuild
  have hsame : "<br title=\"".toList ++ nul :: "\">".toList = html := by
    simpa [htmlRecord] using hbuild
  rw [← hsame, hread] at hparse
  simp [Elem.node, writtenAttrs, AttrValue.written, Node.normal, normalAll, nul] at hparse

end HttpNu.Stdlib.Html
