import HttpNu.Commands.SseDecode
import Mathlib.Data.List.ReduceOption

/-! The Datastar SDK: the records that `to sse` turns into events, and how a client reads them. -/

namespace HttpNu.Stdlib.Datastar

open Text Library.EventStream Commands.Sse Worker

structure PatchElements where
  selector : Option Str := none
  mode : Str := "outer".toList
  nameSpace : Option Str := none
  useViewTransition : Bool := false
  id : Option Str := none
  retryDuration : Option Int := none

structure PatchSignals where
  onlyIfMissing : Bool := false
  id : Option Str := none
  retryDuration : Option Int := none

def eventRecord (event : Str) (data : List Str) (id : Option Str) (retryDuration : Option Int) : Record :=
  [("event".toList, .string event), ("data".toList, .list (data.map .string)),
    ("id".toList, id.elim .nothing .string), ("retry".toList, retryDuration.elim .nothing .int)]

/-- The `lines` of Nushell, on a string those of `str`. -/
def linesOf : Value → Except Str (List Str)
  | .string s => .ok (lines s)
  | _ => .error "Input type not supported.".toList

/-- The HTML of the input; `describe` names the type of a value. -/
def htmlOf (describe : Value → Str) : Value → Except Str Value
  | .string s => .ok (.string s)
  | .record rec =>
    match Record.follow rec "__html".toList with
    | some html => .ok html
    | none => .error "record must have __html field".toList
  | input => .error ("expected string or {__html} record, got ".toList ++ describe input)

def prefixed (name value : Str) : Str := name ++ ' ' :: value

def PatchElements.data (opts : PatchElements) (html : List Str) : List Str :=
  ([opts.selector.map (prefixed "selector".toList),
    if opts.mode ≠ "outer".toList then some (prefixed "mode".toList opts.mode) else none,
    opts.nameSpace.map (prefixed "namespace".toList),
    if opts.useViewTransition then some "useViewTransition true".toList else none] ++
    html.map (fun l => some (prefixed "elements".toList l))).reduceOption

def patchElements (describe : Value → Str) (opts : PatchElements) (input : Value) : Except Str Record := do
  let html ← linesOf (← htmlOf describe input)
  return eventRecord "datastar-patch-elements".toList (opts.data html) opts.id opts.retryDuration

/-- The JSON of the signals, a string as it is; `toJsonRaw` is `to json --raw`. -/
def jsonStr (toJsonRaw : Value → Except Str Str) : Value → Except Str Str
  | .string s => .ok s
  | input => toJsonRaw input

def PatchSignals.data (opts : PatchSignals) (signals : List Str) : List Str :=
  ([if opts.onlyIfMissing then some "onlyIfMissing true".toList else none] ++
    signals.map (fun l => some (prefixed "signals".toList l))).reduceOption

def patchSignals (toJsonRaw : Value → Except Str Str) (opts : PatchSignals) (input : Value) :
    Except Str Record := do
  let json ← jsonStr toJsonRaw input
  return eventRecord "datastar-patch-signals".toList (opts.data (lines json)) opts.id opts.retryDuration

def splitSpace (line : Str) : Str × Str := (line.takeWhile (· ≠ ' '), (line.dropWhile (· ≠ ' ')).tail)

def valuesNamed (name : Str) (options : List (Str × Str)) : List Str :=
  (options.filter (fun o => o.1 = name)).map Prod.snd

/-- What a client takes from the block of an event. -/
structure Patch where
  event : Option Str
  id : Option Str
  retry : Option Str
  selector : Option Str := none
  mode : Str := "outer".toList
  nameSpace : Option Str := none
  useViewTransition : Bool := false
  onlyIfMissing : Bool := false
  elements : List Str := []
  signals : List Str := []
  unknown : List (Str × Str) := []
  others : List Str := []

def optionNames : List Str :=
  ["selector".toList, "mode".toList, "namespace".toList, "useViewTransition".toList, "onlyIfMissing".toList,
    "elements".toList, "signals".toList]

def Patch.ofBlock (block : Block) : Patch :=
  let options := block.data.map splitSpace
  { event := block.event
    id := block.id
    retry := block.retry
    selector := (valuesNamed "selector".toList options).getLast?
    mode := ((valuesNamed "mode".toList options).getLast?).getD "outer".toList
    nameSpace := (valuesNamed "namespace".toList options).getLast?
    useViewTransition := (valuesNamed "useViewTransition".toList options).getLast? = some "true".toList
    onlyIfMissing := (valuesNamed "onlyIfMissing".toList options).getLast? = some "true".toList
    elements := valuesNamed "elements".toList options
    signals := valuesNamed "signals".toList options
    unknown := options.filter (fun o => !optionNames.contains o.1)
    others := block.others }

def OneLineText (s : Str) : Prop := '\n' ∉ s ∧ '\r' ∉ s

instance (s : Str) : Decidable (OneLineText s) := inferInstanceAs (Decidable (_ ∧ _))

structure PatchElements.Plain (opts : PatchElements) : Prop where
  selector : ∀ s ∈ opts.selector, OneLineText s
  mode : OneLineText opts.mode
  nameSpace : ∀ s ∈ opts.nameSpace, OneLineText s
  id : ∀ s ∈ opts.id, OneLineText s

lemma splitSpace_prefixed {name : Str} (hn : ' ' ∉ name) (value : Str) :
    splitSpace (prefixed name value) = (name, value) := by
  have hp : ∀ c ∈ name, decide (c ≠ ' ') = true := by
    intro c hc
    simpa using fun h : c = ' ' => hn (h ▸ hc)
  rw [splitSpace, prefixed, List.takeWhile_append_of_pos hp, List.dropWhile_append_of_pos hp]
  simp

lemma lines_of_oneLine {s : Str} (hne : s ≠ []) (h : OneLineText s) : lines s = [s] := by
  rw [lines_of_getLast? h.2 hne (fun hl => h.1 (List.mem_of_getLast? hl)), List.splitOn_eq_singleton h.1]

lemma toString_int_plain (n : Int) : OneLineText (toString n).toList := by
  have hdigits : ∀ m : Nat, ∀ c ∈ m.repr.toList, c.isDigit = true := by
    intro m c hc
    rw [Nat.toList_repr] at hc
    exact Nat.isDigit_of_mem_toDigits (by decide) (by decide) hc
  have hnat : ∀ m : Nat, OneLineText m.repr.toList :=
    fun m => ⟨fun h => absurd (hdigits m _ h) (by decide), fun h => absurd (hdigits m _ h) (by decide)⟩
  rw [Int.toString_eq_repr, Int.repr_eq_if]
  split
  · exact hnat _
  · obtain ⟨hn, hr⟩ := hnat (-n).toNat
    rw [String.toList_append]
    exact ⟨fun h => (List.mem_append.mp h).elim (by decide) hn,
      fun h => (List.mem_append.mp h).elim (by decide) hr⟩

section

variable {R : Rendering} (hstring : ∀ s, R.toExpandedString (.string s) = s)
  (hint : ∀ n, R.toExpandedString (.int n) = (toString n).toList)

lemma mapM_strings (items : List Str) : (items.map Value.string).mapM (valueToDataString R) = .ok items := by
  induction items with
  | nil => rfl
  | cons item items ih =>
    rw [List.map_cons, List.mapM_cons, ih]
    rfl

lemma dataStrings_eventRecord (event : Str) (data : List Str) (id : Option Str) (retryDuration : Option Int) :
    dataStrings R (eventRecord event data id retryDuration) = .ok data := by
  have hfield : field (eventRecord event data id retryDuration) "data".toList = some (.list (data.map .string)) :=
    rfl
  rw [dataStrings, hfield]
  exact mapM_strings data

include hstring hint

lemma singles_eventRecord (event : Str) (data : List Str) (id : Option Str) (retryDuration : Option Int) :
    (field (eventRecord event data id retryDuration) "event".toList).map R.toExpandedString = some event ∧
      (field (eventRecord event data id retryDuration) "id".toList).map R.toExpandedString = id ∧
      (field (eventRecord event data id retryDuration) "retry".toList).map R.toExpandedString =
        retryDuration.map (fun n => (toString n).toList) := by
  have hevent : field (eventRecord event data id retryDuration) "event".toList = some (.string event) := rfl
  have hid : field (eventRecord event data id retryDuration) "id".toList = id.map .string := by
    cases id <;> rfl
  have hretry : field (eventRecord event data id retryDuration) "retry".toList = retryDuration.map .int := by
    cases retryDuration <;> rfl
  rw [hevent, hid, hretry]
  refine ⟨congrArg some (hstring event), ?_, ?_⟩
  · cases id with
    | none => rfl
    | some id => exact congrArg some (hstring id)
  · cases retryDuration with
    | none => rfl
    | some n => exact congrArg some (hint n)

lemma decode_eventRecord {event : Str} {data : List Str} {id : Option Str} (retryDuration : Option Int)
    (hevent : OneLineText event) (hid : ∀ s ∈ id, OneLineText s)
    (hdata : ∀ item ∈ data, item ≠ [] ∧ OneLineText item)
    (metadata : Option Metadata) :
    ∃ output, toSse R (.value (.record (eventRecord event data id retryDuration)) metadata) = .ok output ∧
      decode (fromUtf8Lossy (written R output)) =
        [⟨some event, id, retryDuration.map (fun n => (toString n).toList), data, []⟩] := by
  obtain ⟨hsevent, hsid, hsretry⟩ := singles_eventRecord hstring hint event data id retryDuration
  have hof : dataOf R (eventRecord event data id retryDuration) = data := by
    rw [dataOf, dataStrings_eventRecord]
  have hplain : Plain R (eventRecord event data id retryDuration) := by
    refine ⟨fun name hname v hv => ?_, fun s hs => (hdata s (hof ▸ hs)).2.2⟩
    have hrender : (field (eventRecord event data id retryDuration) name).map R.toExpandedString =
        some (R.toExpandedString v) := by
      rw [hv]
      rfl
    simp only [singleFields, List.mem_cons, List.not_mem_nil, or_false] at hname
    rcases hname with rfl | rfl | rfl
    · rw [← Option.some.inj (hsevent.symm.trans hrender)]
      exact hevent
    · exact hid _ (hsid.symm.trans hrender)
    · obtain ⟨n, _, hn⟩ := Option.map_eq_some_iff.mp (hsretry.symm.trans hrender)
      rw [← hn]
      exact toString_int_plain n
  have hlines : data.flatMap lines = data := by
    rw [List.flatMap_congr (fun item hitem => lines_of_oneLine (hdata item hitem).1 (hdata item hitem).2)]
    exact List.flatMap_singleton' data
  obtain ⟨output, houtput, hdecode⟩ :=
    decode_written R (.single (eventRecord event data id retryDuration) metadata)
    (fun rec hrec => by rw [List.mem_singleton.mp hrec, hof, dataStrings_eventRecord])
    (fun rec hrec => List.mem_singleton.mp hrec ▸ hplain)
  refine ⟨output, houtput, hdecode.trans ?_⟩
  rw [List.map_singleton, blockOf, hsevent, hsid, hsretry, hof, hlines]

end

lemma oneLineText_prefixed {name value : Str} (hn : OneLineText name) (hv : OneLineText value) :
    prefixed name value ≠ [] ∧ OneLineText (prefixed name value) :=
  ⟨by simp [prefixed], by simp [prefixed, hn.1, hv.1], by simp [prefixed, hn.2, hv.2]⟩

lemma oneLineText_lines {s l : Str} (hcr : '\r' ∉ s) (hl : l ∈ lines s) : OneLineText l :=
  ⟨newline_notMem_lines hl, fun h => hcr (mem_of_mem_lines hl h)⟩

def PatchElements.groups (opts : PatchElements) (html : List Str) : List (Str × List Str) :=
  [("selector".toList, opts.selector.toList),
    ("mode".toList, if opts.mode ≠ "outer".toList then [opts.mode] else []),
    ("namespace".toList, opts.nameSpace.toList),
    ("useViewTransition".toList, if opts.useViewTransition then ["true".toList] else []),
      ("elements".toList, html)]

def PatchSignals.groups (opts : PatchSignals) (signals : List Str) : List (Str × List Str) :=
  [("onlyIfMissing".toList, if opts.onlyIfMissing then ["true".toList] else []), ("signals".toList, signals)]

def pairs (groups : List (Str × List Str)) : List (Str × Str) :=
  groups.flatMap (fun g => g.2.map (fun v => (g.1, v)))

def PlainGroups (groups : List (Str × List Str)) : Prop :=
  ∀ g ∈ groups, g.1 ∈ optionNames ∧ ∀ v ∈ g.2, OneLineText v

lemma optionNames_plain : ∀ name ∈ optionNames, OneLineText name ∧ ' ' ∉ name := by decide

lemma reduceOption_some_map (name : Str) (ls : List Str) :
    (ls.map (fun l => some (prefixed name l))).reduceOption = ls.map (prefixed name) := by
  rw [List.reduceOption, List.filterMap_map]
  exact List.filterMap_eq_map' (f := prefixed name) ▸ rfl

lemma data_elements (opts : PatchElements) (html : List Str) :
    opts.data html = (pairs (opts.groups html)).map (fun o => prefixed o.1 o.2) := by
  have hlines := reduceOption_some_map "elements".toList html
  obtain ⟨selector, mode, nameSpace, useViewTransition, id, retryDuration⟩ := opts
  rw [PatchElements.data, List.reduceOption_append, hlines, PatchElements.groups, pairs]
  by_cases hm : mode = "outer".toList
  · simp only [hm, ne_eq, not_true_eq_false, if_false]
    cases selector <;> cases nameSpace <;> cases useViewTransition <;> simp [List.reduceOption, prefixed]
  · simp only [hm, ne_eq, not_false_eq_true, if_true]
    cases selector <;> cases nameSpace <;> cases useViewTransition <;> simp [List.reduceOption, prefixed]

lemma data_signals (opts : PatchSignals) (signals : List Str) :
    opts.data signals = (pairs (opts.groups signals)).map (fun o => prefixed o.1 o.2) := by
  have hlines := reduceOption_some_map "signals".toList signals
  obtain ⟨onlyIfMissing, id, retryDuration⟩ := opts
  rw [PatchSignals.data, List.reduceOption_append, hlines, PatchSignals.groups, pairs]
  cases onlyIfMissing <;> simp [List.reduceOption, prefixed]

lemma mem_pairs {groups : List (Str × List Str)} (h : PlainGroups groups) {o : Str × Str} (ho : o ∈ pairs groups) :
    o.1 ∈ optionNames ∧ OneLineText o.2 := by
  obtain ⟨g, hg, ho⟩ := List.mem_flatMap.mp ho
  obtain ⟨v, hv, rfl⟩ := List.mem_map.mp ho
  exact ⟨(h g hg).1, (h g hg).2 v hv⟩

lemma items_plain {groups : List (Str × List Str)} (h : PlainGroups groups) :
    ∀ item ∈ (pairs groups).map (fun o => prefixed o.1 o.2), item ≠ [] ∧ OneLineText item := by
  intro item hitem
  obtain ⟨o, ho, rfl⟩ := List.mem_map.mp hitem
  obtain ⟨hname, hvalue⟩ := mem_pairs h ho
  exact oneLineText_prefixed (optionNames_plain _ hname).1 hvalue

lemma valuesNamed_append (name : Str) (xs ys : List (Str × Str)) :
    valuesNamed name (xs ++ ys) = valuesNamed name xs ++ valuesNamed name ys := by
  simp [valuesNamed]

lemma valuesNamed_of_notMem {name : Str} {groups : List (Str × List Str)} (h : name ∉ groups.map Prod.fst) :
    valuesNamed name (pairs groups) = [] := by
  rw [valuesNamed, List.filter_eq_nil_iff.mpr, List.map_nil]
  intro o ho
  obtain ⟨g, hg, ho⟩ := List.mem_flatMap.mp ho
  obtain ⟨v, _, rfl⟩ := List.mem_map.mp ho
  have hne : g.1 ≠ name := fun he => h (he ▸ List.mem_map_of_mem hg)
  simpa using hne

lemma valuesNamed_of_mem {name : Str} {values : List Str} {groups : List (Str × List Str)}
    (hnodup : (groups.map Prod.fst).Nodup) (h : (name, values) ∈ groups) :
    valuesNamed name (pairs groups) = values := by
  induction groups with
  | nil => simp at h
  | cons g groups ih =>
    obtain ⟨hg, hnodup⟩ := List.nodup_cons.mp hnodup
    have hcons : pairs (g :: groups) = g.2.map (fun v => (g.1, v)) ++ pairs groups := rfl
    rw [hcons, valuesNamed_append]
    rcases List.mem_cons.mp h with rfl | h
    · rw [valuesNamed_of_notMem hg, List.append_nil, valuesNamed, List.filter_eq_self.mpr (by simp), List.map_map]
      exact List.map_id' _
    · have hne : g.1 ≠ name := fun he => hg (List.mem_map.mpr ⟨_, h, he.symm⟩)
      rw [ih hnodup h, valuesNamed, List.filter_eq_nil_iff.mpr (by simp [hne]), List.map_nil, List.nil_append]

lemma ofBlock_pairs {groups : List (Str × List Str)} (h : PlainGroups groups) (event id retry : Option Str) :
    Patch.ofBlock ⟨event, id, retry, (pairs groups).map (fun o => prefixed o.1 o.2), []⟩ =
      { event := event
        id := id
        retry := retry
        selector := (valuesNamed "selector".toList (pairs groups)).getLast?
        mode := ((valuesNamed "mode".toList (pairs groups)).getLast?).getD "outer".toList
        nameSpace := (valuesNamed "namespace".toList (pairs groups)).getLast?
        useViewTransition := (valuesNamed "useViewTransition".toList (pairs groups)).getLast? = some "true".toList
        onlyIfMissing := (valuesNamed "onlyIfMissing".toList (pairs groups)).getLast? = some "true".toList
        elements := valuesNamed "elements".toList (pairs groups)
        signals := valuesNamed "signals".toList (pairs groups) } := by
  have hsplit : ((pairs groups).map (fun o => prefixed o.1 o.2)).map splitSpace = pairs groups := by
    rw [List.map_map]
    refine (List.map_congr_left (fun o ho => ?_)).trans (List.map_id' _)
    exact splitSpace_prefixed (optionNames_plain _ (mem_pairs h ho).1).2 o.2
  have hunknown : (pairs groups).filter (fun o => !optionNames.contains o.1) = [] := by
    apply List.filter_eq_nil_iff.mpr
    intro o ho
    simpa using (mem_pairs h ho).1
  rw [Patch.ofBlock, hsplit, hunknown]

def PatchElements.patch (opts : PatchElements) (html : List Str) : Patch where
  event := some "datastar-patch-elements".toList
  id := opts.id
  retry := opts.retryDuration.map (fun n => (toString n).toList)
  selector := opts.selector
  mode := opts.mode
  nameSpace := opts.nameSpace
  useViewTransition := opts.useViewTransition
  elements := html

def PatchSignals.patch (opts : PatchSignals) (signals : List Str) : Patch where
  event := some "datastar-patch-signals".toList
  id := opts.id
  retry := opts.retryDuration.map (fun n => (toString n).toList)
  onlyIfMissing := opts.onlyIfMissing
  signals := signals

lemma groups_elements_plain {opts : PatchElements} (hopts : opts.Plain) {html : Str} (hcr : '\r' ∉ html) :
    PlainGroups (opts.groups (lines html)) := by
  have hmode : ∀ v ∈ (if opts.mode ≠ "outer".toList then [opts.mode] else []), OneLineText v := by
    intro v hv
    split at hv
    · exact List.mem_singleton.mp hv ▸ hopts.mode
    · simp at hv
  have htransition : ∀ v ∈ (if opts.useViewTransition then ["true".toList] else []), OneLineText v := by
    cases opts.useViewTransition <;> decide
  simp only [PlainGroups, PatchElements.groups, List.forall_mem_cons, Option.mem_toList]
  exact ⟨⟨by decide, hopts.selector⟩, ⟨by decide, hmode⟩, ⟨by decide, hopts.nameSpace⟩, ⟨by decide, htransition⟩,
    ⟨by decide, fun l hl => oneLineText_lines hcr hl⟩, by simp⟩

lemma groups_signals_plain (opts : PatchSignals) {signals : Str} (hcr : '\r' ∉ signals) :
    PlainGroups (opts.groups (lines signals)) := by
  have hmissing : ∀ v ∈ (if opts.onlyIfMissing then ["true".toList] else []), OneLineText v := by
    cases opts.onlyIfMissing <;> decide
  simp only [PlainGroups, PatchSignals.groups, List.forall_mem_cons]
  exact ⟨⟨by decide, hmissing⟩, ⟨by decide, fun l hl => oneLineText_lines hcr hl⟩, by simp⟩

lemma getLast?_toList (o : Option Str) : o.toList.getLast? = o := by
  cases o <;> rfl

lemma switch_arrives (b : Bool) :
    decide ((if b then ["true".toList] else []).getLast? = some "true".toList) = b := by
  cases b <;> rfl

lemma mode_arrives (mode : Str) :
    ((if mode ≠ "outer".toList then [mode] else []).getLast?).getD "outer".toList = mode := by
  split
  · rfl
  · rename_i h
    exact (not_not.mp h).symm

lemma ofBlock_elements {opts : PatchElements} (hopts : opts.Plain) {html : Str} (hcr : '\r' ∉ html) :
    Patch.ofBlock ⟨some "datastar-patch-elements".toList, opts.id,
      opts.retryDuration.map (fun n => (toString n).toList), opts.data (lines html), []⟩ =
        opts.patch (lines html) := by
  have hnames : (opts.groups (lines html)).map Prod.fst =
      ["selector".toList, "mode".toList, "namespace".toList, "useViewTransition".toList, "elements".toList] := rfl
  have hmem : ∀ {name values}, (name, values) ∈ opts.groups (lines html) →
      valuesNamed name (pairs (opts.groups (lines html))) = values :=
    valuesNamed_of_mem (hnames ▸ by decide)
  have hnone : ∀ {name}, name ∉ (opts.groups (lines html)).map Prod.fst →
      valuesNamed name (pairs (opts.groups (lines html))) = [] := valuesNamed_of_notMem
  rw [hnames] at hnone
  rw [data_elements, ofBlock_pairs (groups_elements_plain hopts hcr), hmem List.mem_cons_self,
    hmem (List.mem_cons_of_mem _ List.mem_cons_self),
    hmem (List.mem_cons_of_mem _ (List.mem_cons_of_mem _ List.mem_cons_self)),
    hmem (List.mem_cons_of_mem _ (List.mem_cons_of_mem _ (List.mem_cons_of_mem _ List.mem_cons_self))),
    hmem (List.mem_of_getLast? rfl), hnone (by decide), hnone (by decide), getLast?_toList, getLast?_toList,
    mode_arrives, switch_arrives]
  rfl

lemma ofBlock_signals (opts : PatchSignals) {signals : Str} (hcr : '\r' ∉ signals) :
    Patch.ofBlock ⟨some "datastar-patch-signals".toList, opts.id,
      opts.retryDuration.map (fun n => (toString n).toList), opts.data (lines signals), []⟩ =
        opts.patch (lines signals) := by
  have hnames : (opts.groups (lines signals)).map Prod.fst = ["onlyIfMissing".toList, "signals".toList] := rfl
  have hmem : ∀ {name values}, (name, values) ∈ opts.groups (lines signals) →
      valuesNamed name (pairs (opts.groups (lines signals))) = values :=
    valuesNamed_of_mem (hnames ▸ by decide)
  have hnone : ∀ {name}, name ∉ (opts.groups (lines signals)).map Prod.fst →
      valuesNamed name (pairs (opts.groups (lines signals))) = [] := valuesNamed_of_notMem
  rw [hnames] at hnone
  rw [data_signals, ofBlock_pairs (groups_signals_plain opts hcr), hmem List.mem_cons_self,
    hmem (List.mem_of_getLast? rfl), hnone (by decide), hnone (by decide), hnone (by decide), hnone (by decide),
    hnone (by decide), switch_arrives]
  rfl

def IsHtml (input : Value) (html : Str) : Prop :=
  input = .string html ∨ ∃ rec, input = .record rec ∧ Record.follow rec "__html".toList = some (.string html)

theorem datastar_arrives {R : Rendering} (hstring : ∀ s, R.toExpandedString (.string s) = s)
    (hint : ∀ n, R.toExpandedString (.int n) = (toString n).toList) (metadata : Option Metadata) :
    (∀ (describe : Value → Str) (opts : PatchElements) (input : Value) (html : Str), opts.Plain →
      IsHtml input html →
      '\r' ∉ html → ∃ rec output, patchElements describe opts input = .ok rec ∧
        toSse R (.value (.record rec) metadata) = .ok output ∧
        (decode (fromUtf8Lossy (written R output))).map Patch.ofBlock = [opts.patch (lines html)]) ∧
    (∀ (toJsonRaw : Value → Except Str Str) (opts : PatchSignals) (input : Value) (signals : Str),
      (∀ s ∈ opts.id, OneLineText s) → jsonStr toJsonRaw input = .ok signals → '\r' ∉ signals →
      ∃ rec output, patchSignals toJsonRaw opts input = .ok rec ∧
        toSse R (.value (.record rec) metadata) = .ok output ∧
        (decode (fromUtf8Lossy (written R output))).map Patch.ofBlock = [opts.patch (lines signals)]) := by
  constructor
  · intro describe opts input html hopts hinput hcr
    have hhtml : htmlOf describe input = .ok (.string html) := by
      rcases hinput with rfl | ⟨rec, rfl, hrec⟩
      · rfl
      · rw [htmlOf, hrec]
    obtain ⟨output, houtput, hdecode⟩ := decode_eventRecord hstring hint opts.retryDuration
      (show OneLineText "datastar-patch-elements".toList by decide) hopts.id
      (data_elements opts (lines html) ▸ items_plain (groups_elements_plain hopts hcr)) metadata
    refine ⟨_, output, ?_, houtput, ?_⟩
    · rw [patchElements, hhtml]
      rfl
    · rw [hdecode, List.map_singleton, ofBlock_elements hopts hcr]
  · intro toJsonRaw opts input signals hid hinput hcr
    obtain ⟨output, houtput, hdecode⟩ := decode_eventRecord hstring hint opts.retryDuration
      (show OneLineText "datastar-patch-signals".toList by decide) hid
      (data_signals opts (lines signals) ▸ items_plain (groups_signals_plain opts hcr)) metadata
    refine ⟨_, output, ?_, houtput, ?_⟩
    · rw [patchSignals, hinput]
      rfl
    · rw [hdecode, List.map_singleton, ofBlock_signals opts hcr]

def decimal : Rendering where
  toExpandedString
    | .string val => val
    | .int val => (toString val).toList
    | _ => []
  typeName _ := []
  jsonToString _ := .ok []
  floatToString _ := []
  formatCliError _ := []

def svgPatch : PatchElements where
  selector := some "#a b".toList
  mode := "inner".toList
  nameSpace := some "svg".toList
  retryDuration := some 5000

theorem datastar_arrives_svg :
    ∃ rec output, patchElements (fun _ => []) svgPatch (.string "<g>\n\n mode x\ndata: y</g>".toList) = .ok rec ∧
      toSse decimal (.value (.record rec) none) = .ok output ∧
      (decode (fromUtf8Lossy (written decimal output))).map Patch.ofBlock =
        [svgPatch.patch (lines "<g>\n\n mode x\ndata: y</g>".toList)] :=
  (datastar_arrives (fun _ => rfl) (fun _ => rfl) none).1 _ svgPatch _ _
    ⟨by simp [svgPatch, OneLineText], by decide, by simp [svgPatch, OneLineText], by simp [svgPatch]⟩ (Or.inl rfl)
    (by decide)

end HttpNu.Stdlib.Datastar
