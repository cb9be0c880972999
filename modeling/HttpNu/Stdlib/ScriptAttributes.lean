import HttpNu.Stdlib.DatastarScript

/-! The attributes of a script's tag, beside those that the HTML DSL writes for the same record. -/

namespace HttpNu.Stdlib.Datastar

open Text Library.StartTag Library.ScriptElement

/-- The tag is one script element with this script, and its attributes are those of the DSL for the same record,
after the one that removes the script. -/
def Agrees (refs : References) (autoRemove : Bool) (attrs : List (Str × (Str ⊕ Bool))) (script : Str) : Prop :=
  ∃ tag str found, (∀ id retryDuration, scriptTag ⟨autoRemove, some (args attrs), id, retryDuration⟩
    script = some tag) ∧
    Html.attrsToString (args attrs) = some str ∧ parseAttrs refs str = some found ∧
    parse refs tag = some ((if autoRemove then [(effectKey, effectValue)] else []) ++ found, script)

/-- The tag is one script element with this script, and the element gets the attributes that the DSL's text gives
one, after the one that removes the script. -/
def AgreesInDocument (refs : References) (autoRemove : Bool) (attrs : List (Str × (Str ⊕ Bool))) (script : Str) :
    Prop :=
  ∃ tag str found got, (∀ id retryDuration,
      scriptTag ⟨autoRemove, some (args attrs), id, retryDuration⟩ script = some tag) ∧
    Html.attrsToString (args attrs) = some str ∧ parseAttrs refs str = some found ∧
    parse refs tag = some (got, script) ∧
    dropRepeated [] got = dropRepeated [] ((if autoRemove then [(effectKey, effectValue)] else []) ++ found)

def attrName (a : Str × (Str ⊕ Bool)) : Str := (clean a.1).map Char.toLower

def DistinctNames (autoRemove : Bool) (attrs : List (Str × (Str ⊕ Bool))) : Prop :=
  ((effect autoRemove ++ attrs).map attrName).Nodup

/-- A value that is the same written as it is: a string in which no quote and no character reference stands. -/
def Kept (refs : References) (value : Str ⊕ Bool) : Prop :=
  ∃ s, value = .inl s ∧ '"' ∉ s ∧ decode refs (clean s) = clean s

def Carried (script : Str) : Prop := '\r' ∉ script ∧ Char.ofNat 0 ∉ script ∧ Inert script

def dslAttrs (attrs : List (Str × (Str ⊕ Bool))) : List (Str × Html.AttrValue) :=
  attrs.map (fun a => (a.1, a.2.elim .string .switch))

def expected (attrs : List (Str × (Str ⊕ Bool))) : List RawAttr :=
  (Html.writtenAttrs (dslAttrs attrs)).map (fun w => ((clean w.1).map Char.toLower, clean (w.2.getD [])))

lemma expected_string (key s : Str) (attrs : List (Str × (Str ⊕ Bool))) :
    expected ((key, .inl s) :: attrs) = ((clean key).map Char.toLower, clean s) :: expected attrs := rfl

lemma expected_true (key : Str) (attrs : List (Str × (Str ⊕ Bool))) :
    expected ((key, .inr true) :: attrs) = ((clean key).map Char.toLower, []) :: expected attrs := rfl

lemma expected_false (key : Str) (attrs : List (Str × (Str ⊕ Bool))) :
    expected ((key, .inr false) :: attrs) = expected attrs := rfl

lemma expected_effect (autoRemove : Bool) (attrs : List (Str × (Str ⊕ Bool))) :
    expected (effect autoRemove ++ attrs) = (if autoRemove then [(effectKey, effectValue)] else []) ++
      expected attrs := by
  cases autoRemove with
  | false => rfl
  | true =>
    have hkey : (clean effectKey).map Char.toLower = effectKey := by decide
    have hvalue : clean effectValue = effectValue := by decide
    have hcons : effect true ++ attrs = (effectKey, .inl effectValue) :: attrs := rfl
    rw [hcons, expected_string, hkey, hvalue]
    rfl

variable {refs : References}

lemma attrsToString_expected {attrs : List (Str × (Str ⊕ Bool))}
    (hkeys : ∀ a ∈ attrs, Library.Html.validKey a.1 = true) :
    ∃ str, Html.attrsToString (args attrs) = some str ∧ parseAttrs refs str = some (expected attrs) := by
  have hargs : args attrs = Html.attrArgs (dslAttrs attrs) := by
    rw [args, Html.attrArgs, dslAttrs, List.map_map]
    refine List.map_congr_left (fun a _ => ?_)
    rcases a with ⟨key, val | val⟩ <;> rfl
  have hvalid : ∀ a ∈ dslAttrs attrs, Library.Html.validKey a.1 = true := by
    intro a ha
    obtain ⟨b, hb, rfl⟩ := List.mem_map.mp ha
    exact hkeys b hb
  have hwrites : ∀ a ∈ dslAttrs attrs, a.2.Writes a.1 := by
    intro a ha
    obtain ⟨⟨key, val | val⟩, hb, rfl⟩ := List.mem_map.mp ha
    · exact Html.writes_string key val
    · exact Html.writes_switch key val
  refine ⟨_, hargs ▸ Html.attrsToString_written hvalid hwrites, parseAttrs_written (fun w hw => ?_)⟩
  obtain ⟨a, ha, hkey, _⟩ := Html.mem_writtenAttrs hw
  exact hkey ▸ hvalid a ha

lemma parse_tag {autoRemove : Bool} {attrs : List (Str × (Str ⊕ Bool))}
    (hkeys : ∀ a ∈ attrs, Library.Html.validKey a.1 = true) (script : Str) :
    parse refs ('<' :: scriptName ++ tagRest (effect autoRemove ++ attrs) script) =
      element refs ('<' :: scriptName ++ tagRest ((effect autoRemove ++ attrs).map cleaned) (clean script)) := by
  rw [parse, clean_tag]
  intro a ha
  rcases List.mem_append.mp ha with ha | ha
  · exact (effect_plain autoRemove a ha).1
  · exact hkeys a ha

/-- The first quote in a value ends it there, so that an attribute with a shorter value is found. -/
lemma tagFrom_value {a : Str × (Str ⊕ Bool)} (hkey : Library.Html.validKey a.1 = true)
    (attrs : List (Str × (Str ⊕ Bool)))
    (script : Str) : ∃ value rest, tagFrom .beforeName (tagRest (a :: attrs) script) =
      (tagFrom .beforeName (rest ++ tagRest attrs script)).map (putFirst (a.1.map Char.toLower, value)) ∧
        (('"' ∉ valueText a.2 ∧ value = valueText a.2 ∧ rest = []) ∨
          ('"' ∈ valueText a.2 ∧ value.length < (valueText a.2).length)) := by
  by_cases hquote : '"' ∈ valueText a.2
  · obtain ⟨value, rest, hvalue, hfirst⟩ := List.eq_append_cons_of_mem hquote
    refine ⟨value, rest ++ ['"'], tagFrom_cons hkey hfirst _ ?_ attrs script, Or.inr ⟨hquote, ?_⟩⟩
    · rw [hvalue, List.append_assoc, List.cons_append]
    · rw [hvalue, List.length_append, List.length_cons]
      omega
  · exact ⟨_, [], tagFrom_cons hkey hquote [] rfl attrs script, Or.inl ⟨hquote, rfl, rfl⟩⟩

lemma quote_mem_clean {s : Str} : '"' ∈ clean s ↔ '"' ∈ s :=
  ⟨fun h => (mem_clean_of_ne (by decide) (by decide) h).1, fun h => mem_clean (by decide) (by decide) h⟩

lemma decode_bool (b : Bool) : decode refs (toString b).toList = (toString b).toList :=
  decode_of_notMem (by cases b <;> decide)

lemma tagFrom_bool {key : Str} (hkey : Library.Html.validKey key = true) (b : Bool)
    (attrs : List (Str × (Str ⊕ Bool))) (script : Str) :
    tagFrom .beforeName (tagRest ((key, .inr b) :: attrs) script) =
      (tagFrom .beforeName (tagRest attrs script)).map (putFirst (key.map Char.toLower, (toString b).toList)) :=
  tagFrom_cons hkey (show '"' ∉ (toString b).toList by cases b <;> decide) [] rfl attrs script

lemma eq_cons_of_putFirst {attr : RawAttr} {o : Option (List RawAttr × Str)} {raw : List RawAttr} {rest : Str}
    (h : o.map (putFirst attr) = some (raw, rest)) : ∃ raw', raw = attr :: raw' ∧ o = some (raw', rest) := by
  obtain ⟨⟨raw', rest'⟩, ho, he⟩ := Option.map_eq_some_iff.mp h
  obtain ⟨rfl, rfl⟩ := Prod.mk.inj he
  exact ⟨raw', rfl, ho⟩

/-- Once the value that is found is that of the DSL, it is kept, and the other attributes follow it. -/
lemma found_string {key s : Str} (hkey : Library.Html.validKey (clean key) = true)
    {attrs : List (Str × (Str ⊕ Bool))} {script rest : Str} {raw : List RawAttr}
    (htag : tagFrom .beforeName (tagRest (((key, .inl s) :: attrs).map cleaned) script) = some (raw, rest)) :
    ∃ value raw', raw = ((clean key).map Char.toLower, value) :: raw' ∧
      (decode refs value = clean s → Kept refs (.inl s) ∧
        tagFrom .beforeName (tagRest (attrs.map cleaned) script) = some (raw', rest)) := by
  obtain ⟨value, after, hcons, hvalue⟩ :=
    tagFrom_value (a := cleaned (key, .inl s)) hkey (attrs.map cleaned) script
  rw [List.map_cons, hcons] at htag
  obtain ⟨raw', rfl, hraw⟩ := eq_cons_of_putFirst htag
  refine ⟨value, raw', rfl, fun hdecode => ?_⟩
  rcases hvalue with ⟨hquote, rfl, rfl⟩ | ⟨_, hlt⟩
  · exact ⟨⟨s, rfl, fun hm => hquote (quote_mem_clean.mpr hm), hdecode⟩, hraw⟩
  · have hshort : (decode refs value).length ≤ value.length := length_decode_le value
    rw [hdecode] at hshort
    exact absurd hlt (Nat.not_lt.mpr hshort)

lemma found_bool {key : Str} {b : Bool} (hkey : Library.Html.validKey (clean key) = true)
    {attrs : List (Str × (Str ⊕ Bool))} {script rest : Str} {raw : List RawAttr}
    (htag : tagFrom .beforeName (tagRest (((key, .inr b) :: attrs).map cleaned) script) = some (raw, rest)) :
    ∃ raw', raw = ((clean key).map Char.toLower, (toString b).toList) :: raw' ∧
      tagFrom .beforeName (tagRest (attrs.map cleaned) script) = some (raw', rest) := by
  rw [List.map_cons, show cleaned (key, .inr b) = (clean key, .inr b) from rfl, tagFrom_bool hkey] at htag
  exact eq_cons_of_putFirst htag

lemma decode_true_ne : decode refs (toString true).toList ≠ [] := by
  rw [decode_bool]
  decide

def IsFalse (attr : RawAttr) : Prop := attr.2 = "false".toList

variable (refs) in
lemma isFalse_append {pending : List RawAttr} (h : ∀ p ∈ pending, IsFalse p) (key : Str) :
    ∀ p ∈ pending ++ [(key, decode refs "false".toList)], IsFalse p :=
  List.forall_mem_append.mpr ⟨h, List.forall_mem_singleton.mpr (decode_bool false)⟩

lemma expected_ne_pending {attrs : List (Str × (Str ⊕ Bool))}
    (hkeys : ∀ a ∈ attrs, Library.Html.validKey a.1 = true)
    {script rest : Str} {raw : List RawAttr}
    (htag : tagFrom .beforeName (tagRest (attrs.map cleaned) script) = some (raw, rest))
    {pending : List RawAttr} (hne : pending ≠ []) (hpending : ∀ p ∈ pending, IsFalse p) :
    pending ++ raw.map (fun a => (a.1, decode refs a.2)) ≠ expected attrs := by
  induction attrs generalizing pending raw with
  | nil => exact List.append_ne_nil_of_left_ne_nil hne _
  | cons a attrs ih =>
    intro h
    have hkey := validKey_clean (hkeys a List.mem_cons_self)
    have ih := @ih (fun b hb => hkeys b (List.mem_cons_of_mem a hb))
    obtain ⟨p, pending, rfl⟩ := List.exists_cons_of_ne_nil hne
    obtain ⟨hp, hfalse⟩ := List.forall_mem_cons.mp hpending
    obtain ⟨key, s | b⟩ := a
    · -- the value that is met is the pending one's, and takes its place
      obtain ⟨rfl, htail⟩ := List.cons.inj (expected_string key s attrs ▸ h)
      have htext : valueText (cleaned (key, .inl s)).2 ++ ['"'] = "false".toList ++ ['"'] :=
        congrArg (· ++ ['"']) hp
      rw [List.map_cons, tagFrom_cons hkey (by decide) [] htext] at htag
      obtain ⟨raw', rfl, hraw⟩ := eq_cons_of_putFirst htag
      refine ih hraw (by simp) (isFalse_append refs hfalse ((clean key).map Char.toLower)) ?_
      rw [← htail, List.append_assoc]
      rfl
    · obtain ⟨raw', rfl, hraw⟩ := found_bool hkey htag
      cases b with
      | false =>
        refine ih hraw (by simp) (isFalse_append refs hpending ((clean key).map Char.toLower)) ?_
        rw [← expected_false key attrs, ← h, List.append_assoc]
        rfl
      | true =>
        obtain ⟨rfl, _⟩ := List.cons.inj (expected_true key attrs ▸ h)
        exact absurd (show ([] : Str) = "false".toList from hp) (by decide)

lemma kept_of_tagFrom {attrs : List (Str × (Str ⊕ Bool))} (hkeys : ∀ a ∈ attrs, Library.Html.validKey a.1 = true)
    {script rest : Str} {raw : List RawAttr}
    (htag : tagFrom .beforeName (tagRest (attrs.map cleaned) script) = some (raw, rest))
    (h : raw.map (fun a => (a.1, decode refs a.2)) = expected attrs) : ∀ a ∈ attrs, Kept refs a.2 := by
  induction attrs generalizing raw with
  | nil => simp
  | cons a attrs ih =>
    have hkey := validKey_clean (hkeys a List.mem_cons_self)
    have hrest : ∀ b ∈ attrs, Library.Html.validKey b.1 = true := fun b hb => hkeys b (List.mem_cons_of_mem a hb)
    obtain ⟨key, s | b⟩ := a
    · obtain ⟨value, raw', rfl, hfound⟩ := found_string hkey htag
      obtain ⟨hhead, htail⟩ := List.cons.inj (expected_string key s attrs ▸ h)
      obtain ⟨hkept, hraw⟩ := hfound (Prod.mk.inj hhead).2
      exact List.forall_mem_cons.mpr ⟨hkept, ih hrest hraw htail⟩
    · obtain ⟨raw', rfl, hraw⟩ := found_bool hkey htag
      cases b with
      | false =>
        exact absurd h (expected_ne_pending hrest hraw (List.cons_ne_nil _ [])
          (List.forall_mem_singleton.mpr (decode_bool false)))
      | true =>
        exact absurd (Prod.mk.inj (List.cons.inj (expected_true key attrs ▸ h)).1).2 decode_true_ne

lemma fst_mem_of_expected {attrs : List (Str × (Str ⊕ Bool))} {attr : RawAttr} (h : attr ∈ expected attrs) :
    attr.1 ∈ attrs.map attrName := by
  obtain ⟨w, hw, rfl⟩ := List.mem_map.mp h
  obtain ⟨a, ha, hkey, _⟩ := Html.mem_writtenAttrs hw
  obtain ⟨b, hb, rfl⟩ := List.mem_map.mp ha
  exact List.mem_map.mpr ⟨b, hb, by rw [attrName, hkey]⟩

/-- Where the names differ, the first value that is not kept already tells the two elements apart. -/
lemma kept_of_dropRepeated {attrs : List (Str × (Str ⊕ Bool))}
    (hkeys : ∀ a ∈ attrs, Library.Html.validKey a.1 = true) (hdistinct : (attrs.map attrName).Nodup)
    {before : List Str} (hnew : ∀ a ∈ attrs, attrName a ∉ before) {script rest : Str} {raw : List RawAttr}
    (htag : tagFrom .beforeName (tagRest (attrs.map cleaned) script) = some (raw, rest))
    (h : dropRepeated before (raw.map (fun a => (a.1, decode refs a.2))) = dropRepeated before (expected attrs)) :
    ∀ a ∈ attrs, Kept refs a.2 := by
  induction attrs generalizing raw before with
  | nil => simp
  | cons a attrs ih =>
    obtain ⟨ha, hnew⟩ := List.forall_mem_cons.mp hnew
    obtain ⟨hkey, hlaterKeys⟩ := List.forall_mem_cons.mp hkeys
    obtain ⟨hname, hothers⟩ := List.nodup_cons.mp hdistinct
    replace hkey := validKey_clean hkey
    have hlater : ∀ b ∈ attrs, attrName b ∉ attrName a :: before := fun b hb hmem =>
      (List.mem_cons.mp hmem).elim (fun he => hname (List.mem_map.mpr ⟨b, hb, he⟩)) (hnew b hb)
    obtain ⟨key, s | b⟩ := a
    · obtain ⟨value, raw', rfl, hfound⟩ := found_string hkey htag
      rw [expected_string, List.map_cons, dropRepeated_cons_of_notMem ha, dropRepeated_cons_of_notMem ha] at h
      obtain ⟨hhead, htail⟩ := List.cons.inj h
      obtain ⟨hkept, hraw⟩ := hfound (Prod.mk.inj hhead).2
      exact List.forall_mem_cons.mpr ⟨hkept, ih hlaterKeys hothers hlater hraw htail⟩
    · obtain ⟨raw', rfl, hraw⟩ := found_bool hkey htag
      rw [List.map_cons, dropRepeated_cons_of_notMem ha] at h
      cases b with
      | false =>
        -- the DSL writes nothing here, so that what it writes first has another name
        rw [expected_false] at h
        have hmem : attrName (key, .inr false) ∈ attrs.map attrName :=
          fst_mem_of_expected (mem_of_mem_dropRepeated (h ▸ List.mem_cons_self))
        exact absurd hmem hname
      | true =>
        rw [expected_true, dropRepeated_cons_of_notMem ha] at h
        exact absurd (Prod.mk.inj (List.cons.inj h).1).2 decode_true_ne

lemma expected_of_kept {attrs : List (Str × (Str ⊕ Bool))} (h : ∀ a ∈ attrs, Kept refs a.2) :
    ((attrs.map cleaned).map rawAttr).map (fun a => (a.1, decode refs a.2)) = expected attrs := by
  induction attrs with
  | nil => rfl
  | cons a attrs ih =>
    obtain ⟨⟨s, hs, _, hdecode⟩, hrest⟩ := List.forall_mem_cons.mp h
    obtain ⟨key, value⟩ := a
    obtain rfl : value = .inl s := hs
    rw [expected_string, ← ih hrest, ← hdecode]
    exact congrArg (· :: _) (Prod.ext rfl (by rw [hdecode]; exact hdecode))

lemma kept_effect (autoRemove : Bool) : ∀ a ∈ effect autoRemove, Kept refs a.2 := by
  cases autoRemove with
  | false => simp [effect]
  | true =>
    have hvalue : clean effectValue = effectValue := by decide
    have hamp : '&' ∉ effectValue := by decide
    intro a ha
    obtain rfl := List.mem_singleton.mp ha
    exact ⟨effectValue, rfl, by decide, by rw [hvalue, decode_of_notMem hamp]⟩

lemma eq_clean_of_prefix {script : Str} (h : script <+: clean script) : clean script = script :=
  (h.eq_of_length (Nat.le_antisymm h.length_le (length_clean_le script))).symm

lemma element_of_kept {attrs : List (Str × (Str ⊕ Bool))} (hkeys : ∀ a ∈ attrs, Library.Html.validKey a.1 = true)
    (hkept : ∀ a ∈ attrs, Kept refs a.2) (script : Str) :
    tagFrom .beforeName (tagRest (attrs.map cleaned) script) =
      some ((attrs.map cleaned).map rawAttr, script ++ (closing ++ ['>'])) := by
  apply tagFrom_tagRest
  · exact List.forall_mem_map.mpr (fun a ha => validKey_clean (hkeys a ha))
  · refine List.forall_mem_map.mpr (fun a ha => ?_)
    obtain ⟨s, hs, hquote, _⟩ := hkept a ha
    have htext : valueText (cleaned a).2 = clean s := by
      rw [cleaned, hs]
      rfl
    rw [htext, quote_mem_clean]
    exact hquote

lemma carried_of_parse {autoRemove : Bool} {attrs : List (Str × (Str ⊕ Bool))}
    (hkeys : ∀ a ∈ effect autoRemove ++ attrs, Library.Html.validKey a.1 = true)
    (hkept : ∀ a ∈ effect autoRemove ++ attrs, Kept refs a.2) {script : Str} {found : List RawAttr}
    (hparse : element refs
    ('<' :: scriptName ++ tagRest ((effect autoRemove ++ attrs).map cleaned) (clean script)) =
      some (found, script)) : Carried script := by
  obtain ⟨_, hprefix, hinert⟩ :=
    element_some (element_of_kept hkeys hkept (clean script)) (head_tagRest _ (clean script)) hparse
  have hsame := eq_clean_of_prefix hprefix
  obtain ⟨hr, hzero⟩ := clean_eq_self_iff.mp hsame
  rw [hsame] at hinert
  exact ⟨hr, hzero, hinert rfl⟩

lemma AgreesInDocument.of_agrees {autoRemove : Bool} {attrs : List (Str × (Str ⊕ Bool))} {script : Str}
    (h : Agrees refs autoRemove attrs script) : AgreesInDocument refs autoRemove attrs script := by
  obtain ⟨tag, str, found, htag, hstr, hfound, hparse⟩ := h
  exact ⟨tag, str, found, _, htag, hstr, hfound, hparse, rfl⟩

lemma agrees_of_kept {autoRemove : Bool} {attrs : List (Str × (Str ⊕ Bool))}
    (hkeys : ∀ a ∈ attrs, Library.Html.validKey a.1 = true) (hkept : ∀ a ∈ attrs, Kept refs a.2) {script : Str}
    (hcarried : Carried script) : Agrees refs autoRemove attrs script := by
  obtain ⟨hr, hzero, hinert⟩ := hcarried
  obtain ⟨str, hstr, hfound⟩ : ∃ str, Html.attrsToString (args attrs) = some str ∧
      parseAttrs refs str = some (expected attrs) := attrsToString_expected hkeys
  have hall : ∀ a ∈ effect autoRemove ++ attrs, Library.Html.validKey a.1 = true :=
    List.forall_mem_append.mpr ⟨fun a ha => (effect_plain autoRemove a ha).1, hkeys⟩
  have hkept : ∀ a ∈ effect autoRemove ++ attrs, Kept refs a.2 :=
    List.forall_mem_append.mpr ⟨kept_effect autoRemove, hkept⟩
  have hsame := clean_eq_self_iff.mpr ⟨hr, hzero⟩
  refine ⟨_, str, _, fun id retryDuration => scriptTag_eq autoRemove attrs id retryDuration script,
    hstr, hfound, ?_⟩
  rw [parse_tag hkeys, ← expected_effect, ← expected_of_kept hkept, hsame]
  exact element_of_inert (element_of_kept hall hkept script) (head_tagRest _ script) hinert

lemma parsed_tag {autoRemove : Bool} {attrs : List (Str × (Str ⊕ Bool))}
    (hkeys : ∀ a ∈ attrs, Library.Html.validKey a.1 = true) {script tag str : Str} {found got : List RawAttr}
    (htag : ∀ id retryDuration, scriptTag ⟨autoRemove, some (args attrs), id, retryDuration⟩ script = some tag)
    (hstr : Html.attrsToString (args attrs) = some str) (hfound : parseAttrs refs str = some found)
    (hparse : parse refs tag = some (got, script)) :
    found = expected attrs ∧
      element refs ('<' :: scriptName ++ tagRest ((effect autoRemove ++ attrs).map cleaned) (clean script)) =
        some (got, script) ∧
      ∃ raw rest,
        tagFrom .beforeName (tagRest ((effect autoRemove ++ attrs).map cleaned) (clean script)) =
          some (raw, rest) ∧
        raw.map (fun a => (a.1, decode refs a.2)) = got := by
  obtain ⟨str', hstr', hfound'⟩ : ∃ str, Html.attrsToString (args attrs) = some str ∧
      parseAttrs refs str = some (expected attrs) := attrsToString_expected hkeys
  obtain rfl := Option.some.inj ((scriptTag_eq autoRemove attrs none none script).symm.trans (htag none none))
  obtain rfl := Option.some.inj (hstr'.symm.trans hstr)
  rw [parse_tag hkeys] at hparse
  exact ⟨Option.some.inj (hfound.symm.trans hfound'), hparse, element_attrs hparse⟩

theorem scriptTag_agrees_iff (refs : References) (autoRemove : Bool) {attrs : List (Str × (Str ⊕ Bool))}
    (hkeys : ∀ a ∈ attrs, Library.Html.validKey a.1 = true) (script : Str) :
    (Agrees refs autoRemove attrs script ↔ (∀ a ∈ attrs, Kept refs a.2) ∧ Carried script) ∧
      (DistinctNames autoRemove attrs →
        (AgreesInDocument refs autoRemove attrs script ↔ (∀ a ∈ attrs, Kept refs a.2) ∧ Carried script)) := by
  have hall : ∀ a ∈ effect autoRemove ++ attrs, Library.Html.validKey a.1 = true :=
    List.forall_mem_append.mpr ⟨fun a ha => (effect_plain autoRemove a ha).1, hkeys⟩
  refine ⟨⟨?_, fun h => agrees_of_kept hkeys h.1 h.2⟩, fun hdistinct =>
    ⟨?_, fun h => .of_agrees (agrees_of_kept hkeys h.1 h.2)⟩⟩
  · rintro ⟨tag, str, found, htag, hstr, hfound, hparse⟩
    obtain ⟨rfl, helement, raw, rest, hraw, hgot⟩ := parsed_tag hkeys htag hstr hfound hparse
    have hkept := kept_of_tagFrom hall hraw (hgot.trans (expected_effect autoRemove attrs).symm)
    exact ⟨fun a ha => hkept a (List.mem_append_right _ ha), carried_of_parse hall hkept helement⟩
  · rintro ⟨tag, str, found, got, htag, hstr, hfound, hparse, hsame⟩
    obtain ⟨rfl, helement, raw, rest, hraw, rfl⟩ := parsed_tag hkeys htag hstr hfound hparse
    rw [← expected_effect] at hsame
    have hkept := kept_of_dropRepeated hall hdistinct (fun _ _ => List.not_mem_nil) hraw hsame
    exact ⟨fun a ha => hkept a (List.mem_append_right _ ha), carried_of_parse hall hkept helement⟩

def moduleType : List (Str × (Str ⊕ Bool)) := [("type".toList, .inl "module".toList)]

theorem scriptTag_agrees_module :
    (Agrees escapeReferences true moduleType "el.focus()".toList ↔
      (∀ a ∈ moduleType, Kept escapeReferences a.2) ∧ Carried "el.focus()".toList) ∧
      (AgreesInDocument escapeReferences true moduleType "el.focus()".toList ↔
        (∀ a ∈ moduleType, Kept escapeReferences a.2) ∧ Carried "el.focus()".toList) :=
  have hkeys : ∀ a ∈ moduleType, Library.Html.validKey a.1 = true := List.forall_mem_singleton.mpr (by decide)
  have hdistinct : ((effect true ++ moduleType).map attrName).Nodup := by decide
  have h := scriptTag_agrees_iff escapeReferences true hkeys "el.focus()".toList
  ⟨h.1, h.2 hdistinct⟩

def widened : List (Str × (Str ⊕ Bool)) :=
  [("async".toList, .inr true), ("title".toList, .inl "a\" onload=\"b".toList)]

/-- The switch gets a value, and the quote in the title adds an attribute. -/
theorem scriptTag_widened :
    ¬ Agrees escapeReferences true widened [] ∧ ¬ AgreesInDocument escapeReferences true widened [] := by
  have htag : scriptTag ⟨true, some (args widened), none, none⟩ [] =
      some ('<' :: scriptName ++ tagRest (effect true ++ widened) []) := scriptTag_eq true widened none none []
  have hparse : (parse escapeReferences ('<' :: scriptName ++ tagRest (effect true ++ widened) [])).map Prod.fst =
      some [(effectKey, effectValue), ("async".toList, "true".toList), ("title".toList, ['a']),
        ("onload".toList, ['b'])] := by
    decide
  have hfound : (Html.attrsToString (args widened)).bind (parseAttrs escapeReferences) =
      some [("async".toList, []), ("title".toList, "a\" onload=\"b".toList)] := by
    decide
  have hdiffer : ¬ AgreesInDocument escapeReferences true widened [] := by
    rintro ⟨tag, str, found, got, htag', hstr, hfound', hparse', hsame⟩
    rw [hstr, Option.bind_some, hfound'] at hfound
    obtain rfl := Option.some.inj (htag.symm.trans (htag' none none))
    obtain rfl := Option.some.inj hfound
    rw [hparse', Option.map_some] at hparse
    obtain rfl : got = _ := Option.some.inj hparse
    exact absurd hsame (by decide)
  exact ⟨fun h => hdiffer (.of_agrees h), hdiffer⟩

end HttpNu.Stdlib.Datastar
