import Slopdex.Permissions.PathUri

/-!
# Containment of paths by their segments

For a URI with unambiguous segments, being below it means to have the same authority and convention
and to start with its segments, up to ASCII case on Windows.
-/

namespace Slopdex.Permissions

open Protocol (Text)
open Option (some mem_unique)
open Bool (or_eq_true and_eq_true)
open List UrlPath AbsolutePath

variable {base uri : PathUri} {segments : List Text}

namespace PathUri

def authority : PathUri → Option Text
  | fallback _ => none
  | file host _ => host

theorem filter_map_foldCase (segments : List Text) :
    (segments.filter (· != [])).map foldCase = (segments.map foldCase).filter (· != []) := by
  rw [filter_map]
  congr 1
  apply filter_congr
  intro _ _
  simp [bne, Function.comp, foldCase]

theorem lexicalSegments_eq_some (h : uri.lexicalSegments = some segments) :
    ∃ host path conv, uri = file host path ∧ uri.inferPathConvention = some conv ∧
      segments = path.segments.filter (· != []) ∧
      ∀ segment ∈ segments, segment.any (separates conv) = false := by
  cases uri with
  | fallback => cases h
  | file host path =>
    obtain ⟨conv, hc, hs⟩ := Option.bind_eq_some_iff.mp h
    unfold containmentPathSegments at hs
    dsimp only at hs
    split at hs
    next => cases hs
    next hse =>
      cases hs
      refine ⟨host, path, conv, rfl, hc, rfl, ?_⟩
      intro segment hseg
      rw [Bool.eq_false_iff]
      intro ha
      exact hse (any_eq_true.mpr ⟨segment, hseg, ha⟩)

theorem lexicalSegments_file {host : Option Text} {path : UrlPath} {conv : PathConvention}
    (hc : (file host path).inferPathConvention = some conv)
    (hs : ∀ segment ∈ path.segments.filter (· != []),
      segment.any (separates conv) = false) :
    (file host path).lexicalSegments = some (path.segments.filter (· != [])) := by
  have heq : (file host path).lexicalSegments =
      (file host path).inferPathConvention.bind (containmentPathSegments path) := rfl
  rw [heq, hc]
  apply if_neg
  rw [any_eq_true]
  rintro ⟨segment, hse, ha⟩
  rw [hs segment hse] at ha
  cases ha

theorem lexicalDepth_eq_some_iff {depth : ℕ} :
    uri.lexicalDepth = some depth ↔
      ∃ segments, uri.lexicalSegments = some segments ∧ segments.length = depth :=
  Option.map_eq_some_iff

theorem lexicalDepth_eq_none_iff :
    uri.lexicalDepth = none ↔ uri.lexicalSegments = none := Option.map_eq_none_iff

theorem windowsIdentity_eq_some {host : Option Text} {folded : List Text}
    (h : uri.windowsIdentity = some (host, folded)) :
    uri.authority = host ∧ uri.inferPathConvention = some .windows ∧
      ∃ segments, uri.lexicalSegments = some segments ∧
        segments.map foldCase = folded.filter (· != []) := by
  cases uri with
  | fallback => cases h
  | file =>
    unfold windowsIdentity at h
    dsimp only at h
    split at h
    next hw =>
      simp only [some.injEq] at h
      obtain ⟨rfl, rfl⟩ := h
      refine ⟨rfl, hw.1, _, lexicalSegments_file hw.1 ?_, filter_map_foldCase _⟩
      intro segment hs
      have ha := all_eq_true.mp hw.2 segment (mem_of_mem_filter hs)
      simpa using ha
    next => cases h

theorem nativePathSegmentsStartWith_self (segments : List Text) (conv : PathConvention) :
    nativePathSegmentsStartWith segments segments conv = true := by
  cases conv with
  | posix | windows => exact List.isPrefixOf_iff_prefix.mpr (prefix_refl _)

/-- Containment is a matter of the segments, the host and the convention. -/
theorem startsWith_iff {baseSegments : List Text} (hb : base.lexicalSegments = some baseSegments) :
    uri.startsWith base = true ↔
      ∃ segments conv, uri.lexicalSegments = some segments ∧
        uri.authority = base.authority ∧ uri.inferPathConvention = some conv ∧
        base.inferPathConvention = some conv ∧
        nativePathSegmentsStartWith segments baseSegments conv = true := by
  obtain ⟨_, _, conv, rfl, hc, -, -⟩ := lexicalSegments_eq_some hb
  unfold startsWith
  rw [or_eq_true]
  constructor
  · rintro (hsa | hbe)
    · rw [same, or_eq_true, beq_iff_eq, and_eq_true, beq_iff_eq] at hsa
      rcases hsa with rfl | ⟨hso, hid⟩
      · exact ⟨baseSegments, conv, hb, rfl, hc, hc,
          nativePathSegmentsStartWith_self _ _⟩
      · obtain ⟨⟨_, _⟩, hf⟩ := Option.isSome_iff_exists.mp hso
        obtain ⟨ha, hw, segments, hs, hm⟩ :=
          windowsIdentity_eq_some hf
        obtain ⟨ha', hw', segments', hs', hm'⟩ :=
          windowsIdentity_eq_some (hid ▸ hf)
        obtain rfl := mem_unique hs' hb
        refine ⟨segments, .windows, hs, ha.trans ha'.symm, hw, hw', ?_⟩
        rw [nativePathSegmentsStartWith, hm, hm']
        exact List.isPrefixOf_iff_prefix.mpr (prefix_refl _)
    · cases uri with
      | fallback => cases hbe
      | file authority uriPath =>
        simp only [and_eq_true, beq_iff_eq, hb] at hbe
        obtain ⟨⟨ha, hi⟩, hp⟩ := hbe
        cases hs : (file authority uriPath).lexicalSegments with
        | none =>
          rw [hs] at hp
          cases hp
        | some segments =>
          rw [hs, hi, hc] at hp
          exact ⟨segments, conv, rfl, ha, hi.trans hc, hc, hp⟩
  · rintro ⟨_, _, hs, ha, hi, hi', hp⟩
    right
    obtain ⟨_, _, -, rfl, -, -, -⟩ := lexicalSegments_eq_some hs
    simp only [and_eq_true, beq_iff_eq, hb, hs, hi, hi']
    exact ⟨⟨ha, trivial⟩, hp⟩

theorem same_comm (uri other : PathUri) : uri.same other = other.same uri := by
  rw [Bool.eq_iff_iff]
  simp only [same, or_eq_true, and_eq_true, beq_iff_eq]
  constructor
  all_goals
    rintro (rfl | ⟨hs, heq⟩)
    · exact .inl rfl
    · exact .inr ⟨heq ▸ hs, heq.symm⟩

theorem startsWith_of_same {other : PathUri} {depth : ℕ}
    (hs : base.same other = true) (hd : base.lexicalDepth = some depth)
    (hb : uri.startsWith base = true) :
    uri.startsWith other = true ∧ other.lexicalDepth = some depth ∧
      other.inferPathConvention = base.inferPathConvention := by
  rw [same, or_eq_true, beq_iff_eq, and_eq_true, beq_iff_eq] at hs
  rcases hs with rfl | ⟨hso, hi⟩
  · exact ⟨hb, hd, rfl⟩
  · obtain ⟨⟨_, _⟩, hf⟩ := Option.isSome_iff_exists.mp hso
    obtain ⟨ha, hw, segments, hse, hma⟩ := windowsIdentity_eq_some hf
    obtain ⟨ha', hw', segments', hs', hm'⟩ :=
      windowsIdentity_eq_some (hi ▸ hf)
    have hm : segments'.map foldCase = segments.map foldCase := hm'.trans hma.symm
    obtain ⟨found, conv, hfn, hh, hin, hi', hp⟩ :=
      (startsWith_iff hse).mp hb
    obtain rfl := mem_unique hw hi'
    refine ⟨(startsWith_iff hs').mpr ⟨found, .windows, hfn,
      hh.trans (ha.trans ha'.symm), hin, hw', ?_⟩, ?_,
      hw'.trans hw.symm⟩
    · rw [nativePathSegmentsStartWith, hm]
      exact hp
    · obtain ⟨_, hc, rfl⟩ := lexicalDepth_eq_some_iff.mp hd
      obtain rfl := mem_unique hse hc
      refine lexicalDepth_eq_some_iff.mpr ⟨segments', hs', ?_⟩
      have hl := congrArg length hm
      rwa [length_map, length_map] at hl

theorem authority_of_posix (h : uri.inferPathConvention = some .posix) : uri.authority = none := by
  cases uri with
  | fallback => rfl
  | file host =>
    cases host with
    | none => rfl
    | some => cases h

theorem components_walk {names : List Text} (hna : ∀ name ∈ names, name = [] ∨ isName name = true)
    (path : AbsolutePath) :
    (path.walk names).components = path.components ++ names.filter (· != []) := by
  induction names generalizing path with
  | nil => exact (append_nil _).symm
  | cons name _ ih =>
    have ht := ih fun other ho ↦ hna other (mem_cons_of_mem _ ho)
    rw [walk, foldl_cons, ← walk, ht]
    rcases hna name mem_cons_self with rfl | hn
    · rfl
    · have hne : (name != []) = true := by
        unfold isName at hn
        simp only [and_eq_true] at hn
        exact hn.1.1.1
      rw [follow, dif_pos hn, filter_cons, if_pos hne, append_assoc]
      rfl

theorem isName_of_resolved {segment : Text} (hd : isDot segment = false) (hne : segment ≠ [])
    (hse : segment.any (separates .posix) = false) : isName segment = true := by
  unfold isDot at hd
  rw [Bool.or_eq_false_iff, beq_eq_false_iff_ne, beq_eq_false_iff_ne] at hd
  have hs : '/' ∉ segment := by
    intro hm
    rw [any_eq_false] at hse
    exact hse '/' hm rfl
  simp only [isName, and_eq_true, bne_iff_ne, Bool.not_eq_true', contains_eq_mem,
    decide_eq_false_iff_not]
  exact ⟨⟨⟨hne, hs⟩, hd.1⟩, hd.2⟩

theorem toAbsPath_of_lexical (hu : uri.inferPathConvention = some .posix)
    (hse : uri.lexicalSegments = some segments) :
    ∃ path, uri.toAbsPath = some path ∧ path.components = segments := by
  obtain ⟨_, url, _, rfl, hc, rfl, hsep⟩ := lexicalSegments_eq_some hse
  obtain rfl := mem_unique hu hc
  have hn : ∀ segment ∈ url.segments, segment ≠ [] → isName segment = true := by
    intro segment hm hne
    exact isName_of_resolved (url.resolved segment hm) hne
      (hsep segment (mem_filter.mpr ⟨hm, bne_iff_ne.mpr hne⟩))
  have hsp : url.segments.flatMap (·.splitOn '/') = url.segments := by
    have hsi : ∀ segment ∈ url.segments, segment.splitOn '/' = [segment] := by
      intro segment hm
      apply splitOn_eq_singleton
      intro hs
      have hno := hn segment hm (ne_nil_of_mem hs)
      simp [isName, hs] at hno
    rw [flatMap_congr hsi, flatMap_singleton']
  refine ⟨root.walk (url.segments.flatMap (·.splitOn '/')), ?_, ?_⟩
  · unfold toAbsPath
    exact if_pos hu
  · rw [hsp, components_walk]
    · rfl
    · intro segment hm
      by_cases hne : segment = []
      · exact .inl hne
      · exact .inr (hn segment hm hne)

theorem inferPathConvention_of_toAbsPath {path : AbsolutePath}
    (h : uri.toAbsPath = some path) : uri.inferPathConvention = some .posix := by
  cases uri with
  | fallback payload =>
    cases payload with
    | posixPath => rfl
    | posixText | windowsText | other => cases h
  | file =>
    unfold toAbsPath at h
    exact (Option.ite_none_right_eq_some.mp h).1

theorem lexicalSegments_of_toAbsPath {path : AbsolutePath}
    (h : uri.toAbsPath = some path) (hs : uri.lexicalSegments = some segments) :
    segments = path.components := by
  obtain ⟨found, hf, hc⟩ :=
    toAbsPath_of_lexical (inferPathConvention_of_toAbsPath h) hs
  rw [h, some.injEq] at hf
  rw [hf, hc]

theorem not_isFallback_of_toAbsPath {path : AbsolutePath}
    (h : uri.toAbsPath = some path) (hf : (fromAbsPath path).isFallback = false) :
    uri.isFallback = false := by
  cases uri with
  | file => rfl
  | fallback payload =>
    cases payload with
    | posixPath =>
      unfold toAbsPath at h
      obtain ⟨hs, rfl⟩ := Option.ite_some_none_eq_some.mp h
      rw [hs] at hf
      cases hf
    | posixText | windowsText | other => cases h

end PathUri

end Slopdex.Permissions
