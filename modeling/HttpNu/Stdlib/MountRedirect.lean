import HttpNu.Stdlib.Router

/-! The redirect of a bare mount, seen through the mounts around it. -/

namespace HttpNu.Stdlib.Router

open Text
open Worker (PipelineData Outcome)

variable (R : Rendering)

def locationOf : Outcome → Option Str
  | .ok (.value _ metadata) =>
    let response := Response.extractHttpResponseMeta metadata
    match response.status, response.headers.find? (fun e => e.1 = "location".toList) with
    | some 302, some (_, .single location) => some location
    | _, _ => none
  | _ => none

/-- The routes before each mount pass on what they see on the way in. -/
def Clear : List Level → RequestRecord → Prop
  | [], _ => True
  | level :: levels, req =>
    level.Passes req ∧ ∀ path, pathOf req = .ok path → Clear levels (mounted R level.mountedAt path req)

/-- A request for the bare path of the innermost of the mounts is sent to the same external path with a slash
at its end, and a request for that reaches the innermost handler. -/
def RedirectsInside (ps : List Str) (incoming : Str) : Prop :=
  ∀ levels : List Level, levels.map Level.mountedAt = ps → ∀ req, pathOf req = .ok ps.flatten →
    mountPrefix R req = incoming → Clear R levels req →
      (∀ inner body, locationOf (chain R levels inner body req) = some (incoming ++ ps.flatten ++ ['/'])) ∧
      ∀ followed, pathOf followed = .ok (ps.flatten ++ ['/']) → mountPrefix R followed = incoming →
        Clear R levels followed → ∃ received, Reaches R levels followed received ∧ pathOf received = .ok ['/']

/-- Nothing around the mounts has a path, and only one of them has, which is the outermost or begins with a
slash. -/
def AloneWithPath (ps : List Str) (incoming : Str) : Prop :=
  incoming = [] ∧ ∃ front only back, ps = front ++ only :: back ∧ (∀ q ∈ front, q = []) ∧ (∀ q ∈ back, q = []) ∧
    (front = [] ∨ only.head? = some '/')

def bareLocation : List Str → Option Str
  | [] => none
  | p :: ps =>
    if ps.flatten = [] then some (p ++ ['/'])
    else if ps.flatten.head? = some '/' then bareLocation ps
    else none

lemma flatten_eq_nil {ps : List Str} : ps.flatten = [] ↔ ∀ q ∈ ps, q = [] := List.flatten_eq_nil_iff

lemma flatten_alone {front back : List Str} (hfront : ∀ q ∈ front, q = []) (hback : ∀ q ∈ back, q = [])
    (only : Str) : (front ++ only :: back).flatten = only := by
  rw [List.flatten_append, List.flatten_cons, flatten_eq_nil.mpr hfront, flatten_eq_nil.mpr hback, List.nil_append,
    List.append_nil]

lemma aloneWithPath_cons {p : Str} {ps : List Str} {incoming : Str} :
    AloneWithPath (p :: ps) incoming ↔
      if ps.flatten = [] then incoming = []
      else incoming = [] ∧ p = [] ∧ ps.flatten.head? = some '/' ∧ AloneWithPath ps [] := by
  by_cases hps : ps.flatten = []
  · rw [if_pos hps]
    exact ⟨fun h => h.1, fun h => ⟨h, [], p, ps, rfl, nofun, flatten_eq_nil.mp hps, Or.inl rfl⟩⟩
  · rw [if_neg hps]
    constructor
    · rintro ⟨hincoming, front, only, back, heq, hfront, hback, hslash⟩
      cases front with
      | nil =>
        obtain ⟨rfl, rfl⟩ := List.cons.inj heq
        exact absurd (flatten_eq_nil.mpr hback) hps
      | cons q front =>
        obtain ⟨rfl, rfl⟩ := List.cons.inj heq
        have hslash : only.head? = some '/' := hslash.resolve_left (List.cons_ne_nil _ _)
        have hrest : ∀ q ∈ front, q = [] := fun q hq => hfront q (List.mem_cons_of_mem _ hq)
        refine ⟨hincoming, hfront p List.mem_cons_self, ?_, rfl, front, only, back, rfl, hrest, hback,
          Or.inr hslash⟩
        exact (congrArg List.head? (flatten_alone hrest hback only)).trans hslash
    · rintro ⟨hincoming, rfl, hslash, _, front, only, back, rfl, hfront, hback, _⟩
      rw [flatten_alone hfront hback] at hslash
      exact ⟨hincoming, [] :: front, only, back, rfl, List.forall_mem_cons.mpr ⟨rfl, hfront⟩, hback, Or.inr hslash⟩

lemma bareLocation_iff (p : Str) (ps : List Str) (incoming : Str) :
    bareLocation (p :: ps) = some (incoming ++ (p :: ps).flatten ++ ['/']) ↔ AloneWithPath (p :: ps) incoming := by
  induction ps generalizing p incoming with
  | nil =>
    rw [aloneWithPath_cons]
    simp [bareLocation]
  | cons q qs ih =>
    rw [aloneWithPath_cons, bareLocation]
    by_cases hnil : (q :: qs).flatten = []
    · rw [if_pos hnil, if_pos hnil, List.flatten_cons, hnil]
      simp
    by_cases hslash : (q :: qs).flatten.head? = some '/'
    · have hrest := ih q (incoming ++ p)
      rw [List.append_assoc incoming p] at hrest
      rw [if_neg hnil, if_neg hnil, if_pos hslash, List.flatten_cons, hrest]
      simp only [AloneWithPath, List.append_eq_nil_iff, hslash, true_and, and_assoc]
    · rw [if_neg hnil, if_neg hnil, if_neg hslash]
      exact iff_of_false nofun (fun h => hslash h.2.2.1)

variable {R}

lemma chain_bareLocation {levels : List Level} {req : RequestRecord} {location : Str}
    (hlocation : bareLocation (levels.map Level.mountedAt) = some location)
    (hpath : pathOf req = .ok (levels.map Level.mountedAt).flatten) (hclear : Clear R levels req) (inner : Handler)
    (body : PipelineData) : chain R levels inner body req = redirect location := by
  induction levels generalizing req with
  | nil => cases hlocation
  | cons level levels ih =>
    obtain ⟨hpass, hclear⟩ := hclear
    rw [List.map_cons, List.flatten_cons] at hpath
    rw [List.map_cons, bareLocation] at hlocation
    by_cases hnil : (levels.map Level.mountedAt).flatten = []
    · rw [if_pos hnil, Option.some_inj] at hlocation
      rw [hnil, List.append_nil] at hpath
      rw [chain_cons, dispatch_redirect hpass hpath, hlocation]
    · rw [if_neg hnil] at hlocation
      by_cases hslash : (levels.map Level.mountedAt).flatten.head? = some '/'
      · rw [if_pos hslash] at hlocation
        obtain ⟨rest, hrest⟩ := List.head?_eq_some_iff.mp hslash
        rw [hrest] at hpath
        rw [chain_cons, dispatch_mounted hpass hpath ⟨rest, by simp⟩]
        refine ih hlocation ?_ (hclear _ hpath)
        rw [mounted_path, hrest]
      · rw [if_neg hslash] at hlocation
        cases hlocation

def bareLevels (ps : List Str) : List Level := ps.map (fun p => ⟨[], p, []⟩)

lemma bareLevels_mountedAt (ps : List Str) : (bareLevels ps).map Level.mountedAt = ps := by
  rw [bareLevels, List.map_map]
  exact List.map_id' ps

lemma bareLevels_clear (ps : List Str) (req : RequestRecord) : Clear R (bareLevels ps) req := by
  induction ps generalizing req with
  | nil => trivial
  | cons p ps ih => exact ⟨nofun, fun _ _ => ih _⟩

lemma bareLevels_unanswered {p : Str} {ps : List Str} {req : RequestRecord}
    (hlocation : bareLocation (p :: ps) = none)
    (hpath : pathOf req = .ok (p :: ps).flatten) (inner : Handler) (body : PipelineData) :
    locationOf (chain R (bareLevels (p :: ps)) inner body req) = none := by
  induction ps generalizing p req with
  | nil => cases hlocation
  | cons q qs ih =>
    have hpass : Level.Passes ⟨[], p, []⟩ req := nofun
    rw [List.flatten_cons] at hpath
    rw [bareLocation] at hlocation
    by_cases hnil : (q :: qs).flatten = []
    · rw [if_pos hnil] at hlocation
      cases hlocation
    rw [if_neg hnil] at hlocation
    have hchain : chain R (bareLevels (p :: q :: qs)) inner body req =
        dispatch body req (Level.routes R ⟨[], p, []⟩ (chain R (bareLevels (q :: qs)) inner)) := rfl
    by_cases hslash : (q :: qs).flatten.head? = some '/'
    · rw [if_pos hslash] at hlocation
      obtain ⟨rest, hrest⟩ := List.head?_eq_some_iff.mp hslash
      rw [hrest] at hpath
      rw [hchain, dispatch_mounted hpass hpath ⟨rest, by simp⟩]
      refine ih hlocation ?_
      rw [mounted_path, hrest]
    · have hreject : ¬ (p ++ (q :: qs).flatten = p ∨ p ++ ['/'] <+: p ++ (q :: qs).flatten) := by
        rintro (heq | hbound)
        · exact hnil (List.append_right_eq_self.mp heq)
        · rw [List.prefix_append_right_inj] at hbound
          obtain ⟨rest, hrest⟩ := hbound
          exact hslash (by rw [← hrest]; rfl)
      rw [hchain, dispatch, Level.routes, findMatch_skip hpass, findMatch, mount_test hpath, if_neg hreject]
      rfl

def Boundaries : List Str → Prop
  | [] => True
  | _ :: ps => (ps.flatten = [] ∨ ps.flatten.head? = some '/') ∧ Boundaries ps

lemma boundaries_of_nil {ps : List Str} (h : ps.flatten = []) : Boundaries ps := by
  induction ps with
  | nil => trivial
  | cons p ps ih =>
    rw [List.flatten_cons, List.append_eq_nil_iff] at h
    exact ⟨Or.inl h.2, ih h.2⟩

lemma AloneWithPath.boundaries {p : Str} {ps : List Str} {incoming : Str} (h : AloneWithPath (p :: ps) incoming) :
    Boundaries (p :: ps) := by
  induction ps generalizing p incoming with
  | nil => exact ⟨Or.inl rfl, trivial⟩
  | cons q qs ih =>
    rw [aloneWithPath_cons] at h
    split at h
    · rename_i hnil
      exact ⟨Or.inl hnil, boundaries_of_nil hnil⟩
    · exact ⟨Or.inr h.2.2.1, ih h.2.2.2⟩

lemma reaches_slash {levels : List Level} {req : RequestRecord} (h : Boundaries (levels.map Level.mountedAt))
    (hpath : pathOf req = .ok ((levels.map Level.mountedAt).flatten ++ ['/'])) (hclear : Clear R levels req) :
    ∃ received, Reaches R levels req received ∧ pathOf received = .ok ['/'] := by
  induction levels generalizing req with
  | nil => exact ⟨req, fun _ _ => rfl, hpath⟩
  | cons level levels ih =>
    obtain ⟨hpass, hclear⟩ := hclear
    obtain ⟨hnext, hboundaries⟩ := h
    have hslash : ∃ rest, (levels.map Level.mountedAt).flatten ++ ['/'] = '/' :: rest := by
      rcases hnext with hnil | hhead
      · exact ⟨[], by rw [hnil, List.nil_append]⟩
      · obtain ⟨rest, hrest⟩ := List.head?_eq_some_iff.mp hhead
        exact ⟨rest ++ ['/'], by rw [hrest, List.cons_append]⟩
    obtain ⟨rest, hrest⟩ := hslash
    rw [List.map_cons, List.flatten_cons, List.append_assoc, hrest] at hpath
    obtain ⟨received, hreach, hreceived⟩ := ih hboundaries (by rw [mounted_path, hrest]) (hclear _ hpath)
    exact ⟨received, reaches_of_mounted hpass hpath hreach, hreceived⟩

def requestAt (path incoming : Str) : RequestRecord where
  fields := [("path".toList, .string path), ("mount_prefix".toList, .string incoming)]
  distinct := (by decide : ["path".toList, "mount_prefix".toList].Nodup)

lemma locationOf_redirect (location : Str) : locationOf (redirect location) = some location := rfl

variable (R) in
/-- The bare path of nested mounts is redirected to the same place with a slash exactly when one of them alone has
a path, and nothing around them has. -/
theorem redirectsInside_iff (p : Str) (ps : List Str) (incoming : Str) :
    RedirectsInside R (p :: ps) incoming ↔ AloneWithPath (p :: ps) incoming := by
  constructor
  · intro h
    have hpath : pathOf (requestAt (p :: ps).flatten incoming) = .ok (p :: ps).flatten := rfl
    obtain ⟨hanswer, _⟩ := h (bareLevels (p :: ps)) (bareLevels_mountedAt _) _ hpath rfl (bareLevels_clear _ _)
    have hanswer := hanswer (fun _ _ => .panic) .empty
    cases hlocation : bareLocation (p :: ps) with
    | none =>
      rw [bareLevels_unanswered hlocation hpath] at hanswer
      cases hanswer
    | some location =>
      have hmounts := bareLevels_mountedAt (p :: ps)
      rw [chain_bareLocation (by rw [hmounts, hlocation]) (by rw [hmounts, hpath]) (bareLevels_clear _ _),
        locationOf_redirect] at hanswer
      exact (bareLocation_iff p ps incoming).mp (hlocation.trans hanswer)
  · intro h levels hlevels req hpath hincoming hclear
    have hlocation := (bareLocation_iff p ps incoming).mpr h
    have hboundaries := h.boundaries
    rw [← hlevels] at hlocation hpath hboundaries ⊢
    refine ⟨fun inner body => ?_, fun followed hfollowed _ hclear => reaches_slash hboundaries hfollowed hclear⟩
    rw [chain_bareLocation hlocation hpath hclear, locationOf_redirect]

/-- The inner mount forgets the outer one. -/
theorem nestedRedirect_lost :
    locationOf (chain .plain (bareLevels ["/a".toList, "/b".toList]) (fun _ _ => .panic) .empty
      (requestAt "/a/b".toList [])) = some "/b/".toList ∧
      ¬ RedirectsInside .plain ["/a".toList, "/b".toList] [] := by
  have hanswer : chain .plain (bareLevels ["/a".toList, "/b".toList]) (fun _ _ => .panic) .empty
      (requestAt "/a/b".toList []) = redirect "/b/".toList :=
    chain_bareLocation rfl rfl (bareLevels_clear _ _) _ _
  refine ⟨by rw [hanswer, locationOf_redirect], fun h => ?_⟩
  have hexpected := (h (bareLevels _) (bareLevels_mountedAt _) (requestAt "/a/b".toList []) rfl rfl
    (bareLevels_clear _ _)).1 (fun _ _ => .panic) .empty
  rw [hanswer, locationOf_redirect, Option.some_inj] at hexpected
  exact absurd hexpected (by decide)

end HttpNu.Stdlib.Router
