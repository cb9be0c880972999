import HttpNu.Library.JsString
import HttpNu.Library.ScriptElement
import HttpNu.Stdlib.Datastar
import HttpNu.Stdlib.Html

/-! Scripts sent as events: the script element that a client gets, and the redirect made with it. -/

namespace HttpNu.Stdlib.Datastar

open Text Library.StartTag Library.ScriptElement Library.JsString Commands.Sse Worker
open Library.EventStream hiding decode

structure ExecuteScript where
  autoRemove : Bool := true
  attributes : Option (List (Str × Html.Arg)) := none
  id : Option Str := none
  retryDuration : Option Int := none

/-- `key="value"`, with the value as it is inside a string. -/
def attrPair (attr : Str × Html.Arg) : Option Str :=
  attr.2.text?.map (fun value => attr.1 ++ '=' :: '"' :: value ++ ['"'])

def scriptTag (opts : ExecuteScript) (script : Str) : Option Str := do
  let pairs ← (opts.attributes.getD []).mapM attrPair
  let attrs := ((if opts.autoRemove then some "data-effect=\"el.remove()\"".toList else none) ::
    pairs.map some).reduceOption
  let joined := Html.strJoin " " attrs
  let attrsStr := if joined = [] then [] else ' ' :: joined
  return "<script".toList ++ attrsStr ++ '>' :: script ++ "</script>".toList

def executeScript (opts : ExecuteScript) (script : Str) : Option Record := do
  let tag ← scriptTag opts script
  let data := ["selector body".toList, "mode append".toList] ++ (lines tag).map (prefixed "elements".toList)
  return eventRecord "datastar-patch-elements".toList data opts.id opts.retryDuration

def redirectScript (url : Str) : Str := "setTimeout(() => window.location.href = '".toList ++ url ++ "');".toList

def redirect (url : Str) : Option Record := executeScript {} (redirectScript url)

/-- The script assigns one string literal to the location, and the literal stands for the URL. -/
def Assigns (script url : Str) : Prop :=
  ∃ rest, script = "setTimeout(() => window.location.href = ".toList ++ rest ∧
    singleQuoted rest = some (utf16 url, ");".toList)

/-- The elements are one script element, which assigns the URL and does nothing else. -/
def Redirects (refs : References) (elements url : Str) : Prop :=
  ∃ script, parse refs elements = some ([("data-effect".toList, "el.remove()".toList)], script) ∧
    Assigns script url

/-- No character of the URL means anything to the string, and no part of it to the script element. -/
def Harmless (url : Str) : Prop := '\'' ∉ url ∧ '\\' ∉ url ∧ Char.ofNat 0 ∉ url ∧ Inert url

def effectKey : Str := "data-effect".toList

def effectValue : Str := "el.remove()".toList

def effect (autoRemove : Bool) : List (Str × (Str ⊕ Bool)) :=
  if autoRemove then [(effectKey, .inl effectValue)] else []

def args (attrs : List (Str × (Str ⊕ Bool))) : List (Str × Html.Arg) :=
  attrs.map (fun a => (a.1, a.2.elim .string .bool))

def valueText : Str ⊕ Bool → Str := Sum.elim id (fun b => (toString b).toList)

def attrText (a : Str × (Str ⊕ Bool)) : Str := ' ' :: a.1 ++ '=' :: '"' :: (valueText a.2 ++ ['"'])

def tagRest (attrs : List (Str × (Str ⊕ Bool))) (script : Str) : Str :=
  attrs.flatMap attrText ++ '>' :: (script ++ (closing ++ ['>']))

lemma effect_text : "data-effect=\"el.remove()\"".toList = (attrText (effectKey, .inl effectValue)).tail := by
  decide

lemma mapM_attrPair (attrs : List (Str × (Str ⊕ Bool))) :
    (args attrs).mapM attrPair = some (attrs.map (fun a => (attrText a).tail)) := by
  rw [args, List.mapM_map]
  apply Html.mapM_eq_map
  rintro ⟨key, val | val⟩ _
  · simp [attrPair, attrText, valueText, Html.Arg.text?]
  · simp [attrPair, attrText, valueText, Html.Arg.text?]

lemma spaced {strs : List Str} (h : ∀ s ∈ strs, s ≠ []) :
    (if Html.strJoin " " strs = [] then [] else ' ' :: Html.strJoin " " strs) = strs.flatMap (' ' :: ·) := by
  cases strs with
  | nil => rfl
  | cons s strs =>
    rw [Html.strJoin_space, if_neg (List.append_ne_nil_of_left_ne_nil (h s List.mem_cons_self) _),
      List.flatMap_cons]
    rfl

lemma scriptTag_eq (autoRemove : Bool) (attrs : List (Str × (Str ⊕ Bool))) (id : Option Str)
    (retryDuration : Option Int)
    (script : Str) : scriptTag ⟨autoRemove, some (args attrs), id, retryDuration⟩ script =
      some ('<' :: scriptName ++ tagRest (effect autoRemove ++ attrs) script) := by
  have hstrs : ((if autoRemove then some "data-effect=\"el.remove()\"".toList else none) ::
      (attrs.map (fun a => (attrText a).tail)).map some).reduceOption =
        (effect autoRemove ++ attrs).map (fun a => (attrText a).tail) := by
    rw [effect_text]
    cases autoRemove <;> simp [List.reduceOption, effect]
  have hne : ∀ s ∈ (effect autoRemove ++ attrs).map (fun a => (attrText a).tail), s ≠ [] := by
    intro s hs
    obtain ⟨a, _, rfl⟩ := List.mem_map.mp hs
    simp [attrText]
  have htext : ((effect autoRemove ++ attrs).map (fun a => (attrText a).tail)).flatMap (' ' :: ·) =
      (effect autoRemove ++ attrs).flatMap attrText := by
    rw [List.flatMap_map]
    rfl
  have hopen : "<script".toList = '<' :: scriptName := by decide
  have hclose : "</script>".toList = closing ++ ['>'] := by decide
  simp only [scriptTag, Option.getD_some, mapM_attrPair, bind, Option.bind_some, hstrs, spaced hne, htext,
    hopen, hclose,
    pure]
  simp [tagRest]

def cleaned (a : Str × (Str ⊕ Bool)) : Str × (Str ⊕ Bool) := (clean a.1, a.2.map clean id)

lemma valueText_map (value : Str ⊕ Bool) : valueText (value.map clean id) = clean (valueText value) := by
  rcases value with val | val
  · rfl
  · cases val <;> rfl

lemma clean_attrText {a : Str × (Str ⊕ Bool)} (h : Library.Html.validKey a.1 = true) (t : Str) :
    clean (attrText a ++ t) = attrText (cleaned a) ++ clean t := by
  have hsplit : ∀ b : Str × (Str ⊕ Bool), ∀ u,
    attrText b ++ u = ' ' :: b.1 ++ ('=' :: '"' :: (valueText b.2 ++ '"' :: u)) := by
    intro b u
    simp [attrText]
  rw [hsplit, hsplit, clean_key_append h, clean_quoted, cleaned, valueText_map]

lemma clean_tagRest {attrs : List (Str × (Str ⊕ Bool))} (h : ∀ a ∈ attrs, Library.Html.validKey a.1 = true)
    (script : Str) :
    clean (tagRest attrs script) = tagRest (attrs.map cleaned) (clean script) := by
  induction attrs with
  | nil =>
    have hclose : clean (closing ++ ['>']) = closing ++ ['>'] := by decide
    have hhead : (closing ++ ['>']).head? ≠ some '\n' := by decide
    rw [tagRest, List.flatMap_nil, List.nil_append, clean_cons (by decide) (by decide),
      clean_append_of_head hhead, hclose]
    rfl
  | cons a attrs ih =>
    have hcons : ∀ b bs u, tagRest (b :: bs) u = attrText b ++ tagRest bs u := by
      intro b bs u
      rw [tagRest, List.flatMap_cons, List.append_assoc]
      rfl
    rw [List.map_cons, hcons, hcons, clean_attrText (h a List.mem_cons_self),
      ih (fun b hb => h b (List.mem_cons_of_mem a hb))]

lemma clean_tag {attrs : List (Str × (Str ⊕ Bool))} (h : ∀ a ∈ attrs, Library.Html.validKey a.1 = true)
    (script : Str) :
    clean ('<' :: scriptName ++ tagRest attrs script) =
      '<' :: scriptName ++ tagRest (attrs.map cleaned) (clean script) := by
  have hopen : clean ('<' :: scriptName) = '<' :: scriptName := by decide
  have hlast : ('<' :: scriptName).getLast? ≠ some '\r' := by decide
  rw [clean_append_of_getLast hlast, hopen, clean_tagRest h]

lemma head_tagRest (attrs : List (Str × (Str ⊕ Bool))) (script : Str) :
    (tagRest attrs script).head?.any isDelimiter = true := by
  cases attrs <;> rfl

variable {refs : References}

def rawAttr (a : Str × (Str ⊕ Bool)) : RawAttr := (a.1.map Char.toLower, valueText a.2)

lemma tagFrom_cons {a : Str × (Str ⊕ Bool)} (hkey : Library.Html.validKey a.1 = true) {value : Str}
    (hquote : '"' ∉ value)
    (rest : Str) (hvalue : valueText a.2 ++ ['"'] = value ++ '"' :: rest) (attrs : List (Str × (Str ⊕ Bool)))
    (script : Str) :
    tagFrom .beforeName (tagRest (a :: attrs) script) =
      (tagFrom .beforeName (rest ++ tagRest attrs script)).map (putFirst (a.1.map Char.toLower, value)) := by
  have hsplit : tagRest (a :: attrs) script =
      ' ' :: a.1 ++ '=' :: '"' :: (value ++ '"' :: (rest ++ tagRest attrs script)) := by
    simp only [tagRest, List.flatMap_cons, attrText, hvalue, List.append_assoc, List.cons_append]
  rw [hsplit, tagFrom_attr hkey hquote]

lemma tagFrom_tagRest {attrs : List (Str × (Str ⊕ Bool))} (hkeys : ∀ a ∈ attrs, Library.Html.validKey a.1 = true)
    (hquotes : ∀ a ∈ attrs, '"' ∉ valueText a.2) (script : Str) :
    tagFrom .beforeName (tagRest attrs script) = some (attrs.map rawAttr, script ++ (closing ++ ['>'])) := by
  induction attrs with
  | nil => rfl
  | cons a attrs ih =>
    rw [tagFrom_cons (hkeys a List.mem_cons_self) (hquotes a List.mem_cons_self) [] rfl, List.nil_append,
      ih (fun b hb => hkeys b (List.mem_cons_of_mem a hb)) (fun b hb => hquotes b (List.mem_cons_of_mem a hb))]
    rfl

lemma cleaned_effect (autoRemove : Bool) : (effect autoRemove).map cleaned = effect autoRemove := by
  cases autoRemove with
  | false => rfl
  | true =>
    have hkey : clean effectKey = effectKey := by decide
    have hvalue : clean effectValue = effectValue := by decide
    simp [effect, cleaned, hkey, hvalue]

lemma effect_plain (autoRemove : Bool) :
    ∀ a ∈ effect autoRemove, Library.Html.validKey a.1 = true ∧ '"' ∉ valueText a.2 := by
  cases autoRemove with
  | false => simp [effect]
  | true =>
    intro a ha
    obtain rfl := List.mem_singleton.mp ha
    exact ⟨by decide, by decide +kernel⟩

lemma decode_of_notMem {s : Str} (h : '&' ∉ s) : decode refs s = s := by
  induction s with
  | nil => rfl
  | cons c s ih =>
    simp only [List.mem_cons, not_or] at h
    rw [decode, decodeFrom, if_neg (Ne.symm h.1), ← decode, ih h.2]

def assignment : Str := "setTimeout(() => window.location.href = ".toList

def callEnd : Str := ");".toList

def beforeUrl : Str := "setTimeout(() => window.location.href = '".toList

def afterUrl : Str := "');".toList

lemma redirectScript_eq (url : Str) : redirectScript url = assignment ++ ('\'' :: (url ++ '\'' :: callEnd)) := by
  have hparts : redirectScript url = beforeUrl ++ url ++ afterUrl := rfl
  have hbefore : beforeUrl = assignment ++ ['\''] := by decide
  have hafter : afterUrl = '\'' :: callEnd := by decide
  rw [hparts, hbefore, hafter, List.append_assoc, List.append_assoc, List.singleton_append]

lemma after_quote (s : State) : ∃ t, after s ('\'' :: callEnd) = some t ∧ t.isDouble = s.isDouble := by
  have hend : callEnd = [')', ';'] := by decide
  rw [hend]
  cases s <;> exact ⟨_, rfl, rfl⟩

lemma inert_redirectScript (url : Str) : Inert (redirectScript url) ↔ Inert url := by
  have hbefore : after .data (assignment ++ ['\'']) = some .data := by decide
  rw [redirectScript_eq, List.append_cons, Inert, Inert, after_append, hbefore, Option.bind_some, after_append]
  constructor
  · rintro ⟨t, ht, hdouble⟩
    obtain ⟨s, hs, ht⟩ := Option.bind_eq_some_iff.mp ht
    obtain ⟨t', ht', he⟩ := after_quote s
    obtain rfl := Option.some.inj (ht'.symm.trans ht)
    exact ⟨s, hs, he ▸ hdouble⟩
  · rintro ⟨s, hs, hdouble⟩
    obtain ⟨t, ht, he⟩ := after_quote s
    exact ⟨t, by rw [hs]; exact ht, he.trans hdouble⟩

lemma clean_redirectScript (url : Str) : clean (redirectScript url) = redirectScript (clean url) := by
  have hbefore : clean (assignment ++ ['\'']) = assignment ++ ['\''] := by decide
  have hlast : (assignment ++ ['\'']).getLast? ≠ some '\r' := by decide
  have hafter : clean ('\'' :: callEnd) = '\'' :: callEnd := by decide
  rw [redirectScript_eq, redirectScript_eq, List.append_cons, clean_append_of_getLast hlast, hbefore,
    clean_append_of_head (by simp), hafter, ← List.append_cons]

lemma assigns_redirectScript {url : Str} (hquote : '\'' ∉ url) (hback : '\\' ∉ url) (hn : '\n' ∉ url)
    (hr : '\r' ∉ url) :
    Assigns (redirectScript url) url := by
  refine ⟨_, redirectScript_eq url, ?_⟩
  rw [singleQuoted, if_pos rfl, literalBody_plain hquote hback hn hr]
  rfl

lemma length_utf16_clean {s : Str} (hr : '\r' ∉ s) : (utf16 (clean s)).length = (utf16 s).length := by
  rw [clean_eq_map hr]
  induction s with
  | nil => rfl
  | cons c s ih =>
    rw [List.map_cons, utf16_cons, utf16_cons, List.length_append, List.length_append,
      ih (fun h => hr (List.mem_cons_of_mem c h))]
    by_cases hz : c = Char.ofNat 0
    · rw [hz]
      rfl
    · rw [if_neg hz]

/-- A literal that stands for the URL ends where the URL does, and only when nothing in it is taken for something
else. -/
lemma eq_clean_of_literal {url body : Str} (hr : '\r' ∉ url)
    (hpre : body ++ '\'' :: callEnd <+: clean url ++ '\'' :: callEnd)
    (hlit : literalBody 0 (body ++ '\'' :: callEnd) = some (utf16 url, callEnd)) :
    body = clean url ∧ utf16 url = utf16 (clean url) ∧ '\'' ∉ clean url ∧ '\\' ∉ clean url := by
  obtain ⟨body', hbody, _, _, heq⟩ := literalBody_length hlit
  obtain rfl := List.append_cancel_right hbody
  have hle : body.length ≤ (clean url).length := by
    have := hpre.length_le
    simp only [List.length_append] at this
    omega
  obtain ⟨t, ht⟩ := List.prefix_of_prefix_length_le ((List.prefix_append _ _).trans hpre)
    (List.prefix_append _ _) hle
  have hlen : (utf16 body).length + (utf16 t).length = (utf16 url).length := by
    rw [← List.length_append, ← utf16_append, ht, length_utf16_clean hr]
  obtain ⟨hunits, hquote, hback⟩ := heq (by rw [List.drop_zero]; omega)
  rw [List.drop_zero] at hunits hquote hback
  have hnil : t = [] := by
    have := length_le_utf16 t
    rw [← hunits] at hlen
    exact List.length_eq_zero_iff.mp (by omega)
  rw [hnil, List.append_nil] at ht
  exact ⟨ht, ht ▸ hunits, ht ▸ hquote, ht ▸ hback⟩

lemma redirects_iff {url : Str} (hn : '\n' ∉ url) (hr : '\r' ∉ url) :
    Redirects refs ('<' :: scriptName ++ tagRest (effect true) (redirectScript url)) url ↔ Harmless url := by
  have hplain := effect_plain true
  have hclean : clean ('<' :: scriptName ++ tagRest (effect true) (redirectScript url)) =
      '<' :: scriptName ++ tagRest (effect true) (redirectScript (clean url)) := by
    rw [clean_tag (fun a ha => (hplain a ha).1), cleaned_effect, clean_redirectScript]
  have htag := tagFrom_tagRest (fun a ha => (hplain a ha).1) (fun a ha => (hplain a ha).2)
    (redirectScript (clean url))
  have hhead := head_tagRest (effect true) (redirectScript (clean url))
  constructor
  · rintro ⟨script, hparse, rest, rfl, hlit⟩
    rw [parse, hclean] at hparse
    obtain ⟨_, hpre, hinert⟩ := element_some htag hhead hparse
    rw [redirectScript_eq] at hpre
    cases rest with
    | nil => simp [singleQuoted] at hlit
    | cons c cs =>
      rw [singleQuoted] at hlit
      split_ifs at hlit with hc
      obtain ⟨body, rfl, _, _, _⟩ := literalBody_length hlit
      obtain rfl := hc
      have hcut := List.cons_prefix_cons.mp ((List.prefix_append_right_inj assignment).mp hpre)
      obtain ⟨rfl, hunits, hquote, hback⟩ := eq_clean_of_literal hr hcut.2 hlit
      have hzero : Char.ofNat 0 ∉ url := by
        intro hm
        have hmem := zero_mem_utf16.mp (hunits ▸ zero_mem_utf16.mpr hm)
        exact (mem_clean_of_ne (by decide) (by decide) hmem).2.2 rfl
      have hsame := clean_eq_self_iff.mpr ⟨hr, hzero⟩
      rw [hsame] at hquote hback hinert
      exact ⟨hquote, hback, hzero, (inert_redirectScript url).mp (hinert (redirectScript_eq url).symm)⟩
  · rintro ⟨hquote, hback, hzero, hinert⟩
    have hvalue : decode refs effectValue = effectValue := decode_of_notMem (by decide)
    have hkey : effectKey.map Char.toLower = effectKey := by decide
    refine ⟨redirectScript url, ?_, assigns_redirectScript hquote hback hn hr⟩
    have hattrs : ((effect true).map rawAttr).map (fun a => (a.1, decode refs a.2)) =
      [(effectKey, effectValue)] := by
      simp [effect, rawAttr, valueText, hkey, hvalue]
    rw [clean_eq_self_iff.mpr ⟨hr, hzero⟩] at hclean htag hhead
    rw [parse, hclean, element_of_inert htag hhead ((inert_redirectScript url).mpr hinert), hattrs]
    rfl

lemma oneLineText_append {s t : Str} : OneLineText (s ++ t) ↔ OneLineText s ∧ OneLineText t := by
  simp only [OneLineText, List.mem_append, not_or]
  exact and_and_and_comm

lemma oneLineText_redirectScript {url : Str} (h : OneLineText url) : OneLineText (redirectScript url) := by
  have hbefore : OneLineText (assignment ++ ['\'']) := by decide
  have hafter : OneLineText ('\'' :: callEnd) := by decide
  rw [redirectScript_eq, List.append_cons]
  exact oneLineText_append.mpr ⟨hbefore, oneLineText_append.mpr ⟨h, hafter⟩⟩

lemma oneLineText_tag {script : Str} (h : OneLineText script) :
    OneLineText ('<' :: scriptName ++ tagRest (effect true) script) := by
  have hopen : OneLineText ('<' :: scriptName ++ (effect true).flatMap attrText ++ ['>']) := by decide
  have hclose : OneLineText (closing ++ ['>']) := by decide
  have hsplit : '<' :: scriptName ++ tagRest (effect true) script =
      '<' :: scriptName ++ (effect true).flatMap attrText ++ ['>'] ++ (script ++ (closing ++ ['>'])) := by
    simp [tagRest]
  rw [hsplit]
  exact oneLineText_append.mpr ⟨hopen, oneLineText_append.mpr ⟨h, hclose⟩⟩

def scriptGroups (tag : Str) : List (Str × List Str) :=
  [("selector".toList, ["body".toList]), ("mode".toList, ["append".toList]), ("elements".toList, lines tag)]

lemma scriptGroups_plain {tag : Str} (h : '\r' ∉ tag) : PlainGroups (scriptGroups tag) := by
  intro g hg
  simp only [scriptGroups, List.mem_cons, List.not_mem_nil, or_false] at hg
  rcases hg with rfl | rfl | rfl
  · exact ⟨by decide, by decide⟩
  · exact ⟨by decide, by decide⟩
  · exact ⟨(by decide : "elements".toList ∈ optionNames), fun v hv => oneLineText_lines h hv⟩

lemma executeScript_eq {opts : ExecuteScript} {script tag : Str} (h : scriptTag opts script = some tag) :
    executeScript opts script = some (eventRecord "datastar-patch-elements".toList
      ((pairs (scriptGroups tag)).map (fun o => prefixed o.1 o.2)) opts.id opts.retryDuration) := by
  have hdata : ["selector body".toList, "mode append".toList] ++ (lines tag).map (prefixed "elements".toList) =
      (pairs (scriptGroups tag)).map (fun o => prefixed o.1 o.2) := by
    simp [pairs, scriptGroups, prefixed]
  rw [executeScript, h, ← hdata]
  rfl

def scriptPatch (opts : ExecuteScript) (tag : Str) : Patch where
  event := some "datastar-patch-elements".toList
  id := opts.id
  retry := opts.retryDuration.map (fun n => (toString n).toList)
  selector := some "body".toList
  mode := "append".toList
  elements := lines tag

lemma ofBlock_script (opts : ExecuteScript) {tag : Str} (h : '\r' ∉ tag) :
    Patch.ofBlock ⟨some "datastar-patch-elements".toList, opts.id,
      opts.retryDuration.map (fun n => (toString n).toList),
      (pairs (scriptGroups tag)).map (fun o => prefixed o.1 o.2), []⟩ = scriptPatch opts tag := by
  have hnames : (scriptGroups tag).map Prod.fst = ["selector".toList, "mode".toList, "elements".toList] := rfl
  have hmem : ∀ {name values}, (name, values) ∈ scriptGroups tag →
      valuesNamed name (pairs (scriptGroups tag)) = values := valuesNamed_of_mem (hnames ▸ by decide)
  have hnone : ∀ {name}, name ∉ (scriptGroups tag).map Prod.fst →
    valuesNamed name (pairs (scriptGroups tag)) = [] :=
    valuesNamed_of_notMem
  rw [hnames] at hnone
  rw [ofBlock_pairs (scriptGroups_plain h), hmem List.mem_cons_self,
    hmem (List.mem_cons_of_mem _ List.mem_cons_self),
    hmem (List.mem_of_getLast? rfl), hnone (by decide), hnone (by decide), hnone (by decide), hnone (by decide)]
  rfl

lemma executeScript_arrives {R : Rendering} (hstring : ∀ s, R.toExpandedString (.string s) = s)
    (hint : ∀ n, R.toExpandedString (.int n) = (toString n).toList) {opts : ExecuteScript}
    (hid : ∀ s ∈ opts.id, OneLineText s)
    {script tag : Str} (htag : scriptTag opts script = some tag) (hr : '\r' ∉ tag) (metadata : Option Metadata) :
    ∃ rec output, executeScript opts script = some rec ∧ toSse R (.value (.record rec) metadata) = .ok output ∧
      (Library.EventStream.decode (fromUtf8Lossy (written R output))).map Patch.ofBlock =
        [scriptPatch opts tag] := by
  obtain ⟨output, houtput, hdecode⟩ := decode_eventRecord hstring hint opts.retryDuration
    (show OneLineText "datastar-patch-elements".toList by decide)
      hid (items_plain (scriptGroups_plain hr)) metadata
  exact ⟨_, output, executeScript_eq htag, houtput, by rw [hdecode, List.map_singleton, ofBlock_script opts hr]⟩

lemma redirect_arrives {R : Rendering} (hstring : ∀ s, R.toExpandedString (.string s) = s)
    (hint : ∀ n, R.toExpandedString (.int n) = (toString n).toList) {url : Str} (hn : '\n' ∉ url) (hr : '\r' ∉ url)
    (metadata : Option Metadata) :
    ∃ rec output patch, redirect url = some rec ∧ toSse R (.value (.record rec) metadata) = .ok output ∧
      (Library.EventStream.decode (fromUtf8Lossy (written R output))).map Patch.ofBlock = [patch] ∧
      patch.elements = ['<' :: scriptName ++ tagRest (effect true) (redirectScript url)] := by
  have htag : scriptTag {} (redirectScript url) =
    some ('<' :: scriptName ++ tagRest (effect true) (redirectScript url)) := by
    have := scriptTag_eq true [] none none (redirectScript url)
    rwa [List.append_nil] at this
  have hline := oneLineText_tag (oneLineText_redirectScript ⟨hn, hr⟩)
  obtain ⟨rec, output, hrec, houtput, hpatch⟩ := executeScript_arrives hstring hint (by simp) htag hline.2 metadata
  exact ⟨rec, output, _, hrec, houtput, hpatch, lines_of_oneLine (by simp) hline⟩

theorem redirect_inert_iff (refs : References) {R : Rendering} (hstring : ∀ s, R.toExpandedString (.string s) = s)
    (hint : ∀ n, R.toExpandedString (.int n) = (toString n).toList) {url : Str} (hn : '\n' ∉ url) (hr : '\r' ∉ url)
    (metadata : Option Metadata) :
    ∃ rec output patch, redirect url = some rec ∧ toSse R (.value (.record rec) metadata) = .ok output ∧
      (Library.EventStream.decode (fromUtf8Lossy (written R output))).map Patch.ofBlock = [patch] ∧
      (Redirects refs (['\n'].intercalate patch.elements) url ↔ Harmless url) := by
  obtain ⟨rec, output, patch, hrec, houtput, hpatch, helements⟩ := redirect_arrives hstring hint hn hr metadata
  refine ⟨rec, output, patch, hrec, houtput, hpatch, ?_⟩
  rw [helements, List.intercalate_singleton]
  exact redirects_iff hn hr

def escapeNames : List (Str × Str) :=
  [("amp;".toList, ['&']), ("quot;".toList, ['"']), ("lt;".toList, ['<']), ("gt;".toList, ['>'])]

lemma escapeNames_lookup {name text : Str} (h : escapeNames.lookup name = some text) :
    text.length ≤ name.length ∧ ';' ∉ name.dropLast := by
  obtain ⟨before, rest, hnames, _⟩ := List.lookup_eq_some_iff.mp h
  have hmem : (name, text) ∈ escapeNames := by
    rw [hnames]
    exact List.mem_append_right _ List.mem_cons_self
  have hall : escapeNames.all (fun e => e.2.length ≤ e.1.length && !e.1.dropLast.contains ';') = true := by decide
  simpa using List.all_eq_true.mp hall _ hmem

def escapeReferences : References where
  named name := escapeNames.lookup name
  length_le h := (escapeNames_lookup h).1
  semicolon h := (escapeNames_lookup h).2
  amp := rfl
  quot := rfl
  lt := rfl
  gt := rfl

theorem redirect_inert_dashboard :
    ∃ rec output patch, redirect "/dashboard".toList = some rec ∧
      toSse decimal (.value (.record rec) none) = .ok output ∧
      (Library.EventStream.decode (fromUtf8Lossy (written decimal output))).map Patch.ofBlock = [patch] ∧
      (Redirects escapeReferences (['\n'].intercalate patch.elements) "/dashboard".toList ↔
        Harmless "/dashboard".toList) :=
  redirect_inert_iff escapeReferences (fun _ => rfl) (fun _ => rfl) (by decide) (by decide) none

/-- The first quote of the URL ends the string, and what stands behind it runs. -/
theorem redirect_alert : ¬ ∃ rec output patch, redirect "');alert('1".toList = some rec ∧
    toSse decimal (.value (.record rec) none) = .ok output ∧
    (Library.EventStream.decode (fromUtf8Lossy (written decimal output))).map Patch.ofBlock = [patch] ∧
    Redirects escapeReferences (['\n'].intercalate patch.elements) "');alert('1".toList := by
  rintro ⟨rec, output, patch, hrec, houtput, hpatch, hredirects⟩
  have hn : '\n' ∉ "');alert('1".toList := by decide
  have hr : '\r' ∉ "');alert('1".toList := by decide
  obtain ⟨rec', output', patch', hrec', houtput', hpatch', helements⟩ := redirect_arrives (R := decimal)
    (fun _ => rfl) (fun _ => rfl) hn hr none
  obtain rfl := Option.some.inj (hrec.symm.trans hrec')
  obtain rfl := Except.ok.inj (houtput.symm.trans houtput')
  obtain rfl := List.singleton_inj.mp (hpatch.symm.trans hpatch')
  rw [helements, List.intercalate_singleton, redirects_iff hn hr] at hredirects
  exact hredirects.1 (by decide)

end HttpNu.Stdlib.Datastar
