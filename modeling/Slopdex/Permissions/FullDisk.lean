import Slopdex.Permissions.Containment
import Slopdex.Permissions.Policy

/-!
# Access to the whole disk

The shortcuts look at the entries as they are written, on the host; the decision on a path resolves
them for the executor. A shortcut overlooks an entry for `/tmp` on a host without one, and an entry
for a drive that the host takes for the root. Both agree on a path that can be judged and that some
entry contains, as long as each entry which is overlooked is beaten by another one there.
-/

namespace Slopdex.Permissions

open Protocol (Text)
open Library.Specificity PathUri FileSystemAccessMode List

variable {depth : ℕ} {target : PathUri}

namespace FileSystemSandboxPolicy

variable (host : Host) (policy : FileSystemSandboxPolicy) (context : FileSystemSandboxPolicyContext)
  (path : PathUri)

def Encloses (place : FileSystemPath) (depth : ℕ) : Prop :=
  ∃ target ∈ entryPaths host context place,
    target.inferPathConvention = context.cwd.inferPathConvention ∧
      target.lexicalDepth = some depth ∧ path.startsWith target = true

/-- The path and all entries can be judged: no segment has a separator inside, and the path is one of
the executor. -/
structure Legible : Prop where
  convention : path.inferPathConvention = context.cwd.inferPathConvention
  pathDepth : path.lexicalDepth ≠ none
  cwdDepth : context.cwd.lexicalDepth ≠ none
  unambiguous : ∀ entry ∈ policy.entries, ∀ target ∈ entryPaths host context entry.path,
    target.inferPathConvention = context.cwd.inferPathConvention → target.lexicalDepth = none →
      target.isFallback = true

/-- The entry is for the `/tmp` of another host, or for a path that the host takes for the root and
hence for overridden by the root entry. -/
def Overlooked (entry : FileSystemSandboxEntry) : Prop :=
  entry.path = .special .slashTmp ∧ host.isUnix = false ∨
    ∃ target, entry.path = .path target ∧ host.namesRoot target = true

/-- An entry that allows the access is deeper, or as deep and stronger. -/
def Beaten (allows : FileSystemAccessMode → Bool) (entry : FileSystemSandboxEntry) (depth : ℕ) :
    Prop :=
  ∃ other ∈ policy.entries, allows other.access = true ∧
    ∃ depth', Encloses host context path other.path depth' ∧
      (depth < depth' ∨ depth = depth' ∧ entry.access < other.access)

/-- An entry encloses the path, and no overlooked entry decides against the access. -/
structure Covered (allows : FileSystemAccessMode → Bool) : Prop where
  legible : Legible host policy context path
  enclosed : ∃ entry ∈ policy.entries, ∃ depth, Encloses host context path entry.path depth
  beaten : ∀ entry ∈ policy.entries, Overlooked host entry → allows entry.access = false →
    ∀ depth, Encloses host context path entry.path depth →
      Beaten host policy context path allows entry depth

variable {host policy context path}

theorem mem_resolvedEntries {access : FileSystemAccessMode} :
    (target, access) ∈ policy.resolvedEntries host context ↔
      ∃ entry ∈ policy.entries, entry.access = access ∧
        target ∈ entryPaths host context entry.path ∧
          target.inferPathConvention = context.cwd.inferPathConvention := by
  simp only [resolvedEntries, mem_flatMap, mem_map, mem_filter, beq_iff_eq, Prod.mk.injEq]
  constructor
  · rintro ⟨entry, he, _, ⟨hf, hc⟩, rfl, ha⟩
    exact ⟨entry, he, ha, hf, hc⟩
  · rintro ⟨entry, he, ha, hf, hc⟩
    exact ⟨entry, he, target, ⟨hf, hc⟩, rfl, ha⟩

theorem rankedEntries_eq_some {entries : List (PathUri × FileSystemAccessMode)}
    (h : ∀ entry ∈ entries, entry.1.lexicalDepth = none → entry.1.isFallback = true) :
    rankedEntries entries = some (entries.filterMap fun entry ↦
      entry.1.lexicalDepth.map fun depth ↦ (entry.1, entry.2, depth)) := by
  apply if_neg
  rw [any_eq_true]
  rintro ⟨entry, he, hv⟩
  rw [Bool.and_eq_true, beq_iff_eq] at hv
  rw [h entry he hv.1] at hv
  cases hv.2

theorem exists_unranked {entries : List (PathUri × FileSystemAccessMode)}
    (h : rankedEntries entries ≠ none) :
    ∀ entry ∈ entries, entry.1.lexicalDepth = none → entry.1.isFallback = true := by
  intro entry he hn
  by_contra hf
  apply h
  apply if_pos
  rw [any_eq_true]
  exact ⟨entry, he, by simp [hn, hf]⟩

theorem legible_of_resolveAccess (hr : policy.isRestricted = true)
    (h : policy.resolveAccess host context path ≠ .deny) : Legible host policy context path := by
  unfold resolveAccess at h
  rw [hr, if_neg (by decide)] at h
  split at h
  · exact absurd rfl h
  split at h
  · exact absurd rfl h
  next hc =>
  rw [not_or, not_or, not_not] at hc
  refine ⟨hc.1, hc.2.1, hc.2.2, ?_⟩
  intro entry he target ht hi hn
  have hk : rankedEntries (policy.resolvedEntries host context) ≠ none := by
    intro hno
    rw [hno] at h
    exact h rfl
  exact exists_unranked hk (target, entry.access) (mem_resolvedEntries.mpr ⟨entry, he, rfl, ht, hi⟩) hn

theorem resolveAccess_spec (hr : policy.isRestricted = true)
    (h : Legible host policy context path) :
    ∃ rules : List (ℕ × FileSystemAccessMode),
      policy.resolveAccess host context path = mostSpecific .deny rules ∧
      ∀ depth access, (depth, access) ∈ rules ↔
        ∃ entry ∈ policy.entries, entry.access = access ∧
          Encloses host context path entry.path depth := by
  obtain ⟨_, hse⟩ := Option.ne_none_iff_exists'.mp (mt lexicalDepth_eq_none_iff.mpr h.cwdDepth)
  obtain ⟨-, -, _, -, hco, -, -⟩ := lexicalSegments_eq_some hse
  have hl : ∀ entry ∈ policy.resolvedEntries host context, entry.1.lexicalDepth = none →
      entry.1.isFallback = true := by
    rintro ⟨target, _⟩ he hn
    obtain ⟨entry, hm, -, ht, hi⟩ := mem_resolvedEntries.mp he
    exact h.unambiguous entry hm target ht hi hn
  have hk : ¬context.cwd.inferPathConvention = none := by
    rw [hco]
    nofun
  have hc : ¬(path.inferPathConvention ≠ context.cwd.inferPathConvention ∨
      path.lexicalDepth = none ∨ context.cwd.lexicalDepth = none) := by
    rw [not_or, not_or, not_not]
    exact ⟨h.convention, h.pathDepth, h.cwdDepth⟩
  refine ⟨((policy.resolvedEntries host context).filterMap fun entry ↦
    entry.1.lexicalDepth.map fun depth ↦ (entry.1, entry.2, depth)).filter
      (fun entry ↦ path.startsWith entry.1) |>.map fun entry ↦ (entry.2.2, entry.2.1), ?_, ?_⟩
  · unfold resolveAccess
    rw [hr, if_neg (by decide), if_neg hk, if_neg hc, rankedEntries_eq_some hl]
  · intro depth access
    simp only [mem_map, mem_filter, mem_filterMap, Option.map_eq_some_iff,
      Prod.exists, Prod.mk.injEq]
    constructor
    · rintro ⟨_, _, _, ⟨⟨_, _, he, _, hd, rfl, rfl, rfl⟩, hs⟩, rfl, rfl⟩
      obtain ⟨entry, hm, ha, ht, hi⟩ := mem_resolvedEntries.mp he
      exact ⟨entry, hm, ha, _, ht, hi, hd, hs⟩
    · rintro ⟨entry, hm, ha, target, ht, hi, hd, hs⟩
      exact ⟨target, access, depth, ⟨⟨target, access, mem_resolvedEntries.mpr ⟨entry, hm, ha,
        ht, hi⟩, depth, hd, rfl, rfl, rfl⟩, hs⟩, rfl, rfl⟩

/-- The entry that decides on the path, and why. -/
structure Decides (host : Host) (policy : FileSystemSandboxPolicy)
    (context : FileSystemSandboxPolicyContext) (path : PathUri) (entry : FileSystemSandboxEntry)
    (deepest : ℕ) : Prop where
  mem : entry ∈ policy.entries
  encloses : Encloses host context path entry.path deepest
  access : policy.resolveAccess host context path = entry.access
  strongest : ∀ other ∈ policy.entries, ∀ depth, Encloses host context path other.path depth →
    depth < deepest ∨ depth = deepest ∧ other.access ≤ entry.access

theorem exists_decides (hre : policy.isRestricted = true) (h : Legible host policy context path)
    (henc : ∃ entry ∈ policy.entries, ∃ depth, Encloses host context path entry.path depth) :
    ∃ entry deepest, Decides host policy context path entry deepest := by
  obtain ⟨around, ha, depth, henc⟩ := henc
  obtain ⟨rules, hac, hr⟩ := resolveAccess_spec hre h
  have hne : rules ≠ [] :=
    ne_nil_of_mem ((hr depth around.access).mpr ⟨around, ha, rfl, henc⟩)
  obtain ⟨deepest, hm, hb⟩ := mostSpecific_spec .deny hne
  rw [← hac] at hm hb
  obtain ⟨entry, hent, he, hen⟩ := (hr _ _).mp hm
  refine ⟨entry, deepest, hent, hen, he.symm, ?_⟩
  intro other hot _ ho
  rw [he]
  exact hb _ ((hr _ _).mpr ⟨other, hot, rfl, ho⟩)

theorem exists_encloses_of_resolveAccess (hr : policy.isRestricted = true)
    (hl : Legible host policy context path) (h : policy.resolveAccess host context path ≠ .deny) :
    ∃ entry ∈ policy.entries, ∃ depth, Encloses host context path entry.path depth := by
  obtain ⟨rules, hac, hmem⟩ := resolveAccess_spec hr hl
  obtain _ | ⟨⟨depth, access⟩, _⟩ := rules
  · exact absurd hac h
  · obtain ⟨entry, he, -, henc⟩ := (hmem depth access).mp (.head _)
    exact ⟨entry, he, depth, henc⟩

def slashTmpUri : PathUri := .file none ⟨["tmp".toList], by decide +kernel⟩

theorem entryPaths_slashTmp (hp : context.cwd.inferPathConvention = some .posix) :
    entryPaths host context (.special .slashTmp) = [slashTmpUri] := by
  have hj : context.cwd.join host.windows "/tmp".toList = some slashTmpUri := by
    unfold join
    rw [if_neg (by decide +kernel), if_neg (by decide +kernel), hp]
    have ha : fromAbsolutePosixPath "tmp".toList = slashTmpUri := by decide +kernel
    exact congrArg some ha
  rw [entryPaths, if_pos hp, hj]
  rfl

theorem posix_of_mem_slashTmp (h : target ∈ entryPaths host context (.special .slashTmp)) :
    context.cwd.inferPathConvention = some .posix := by
  by_contra hne
  rw [entryPaths, if_neg hne] at h
  cases h

theorem lexicalSegments_slashTmpUri :
    slashTmpUri.lexicalSegments = some Host.slashTmpPath.components := by decide +kernel

theorem inferPathConvention_slashTmpUri : slashTmpUri.inferPathConvention = some .posix := by
  decide +kernel

/-- A path that the host takes for `/tmp` is the `/tmp` of a POSIX executor. -/
theorem segments_of_namesSlashTmp {segs : List Text}
    (hn : host.namesSlashTmp target = true) (hs : target.lexicalSegments = some segs) :
    target.inferPathConvention = some .posix ∧ segs = Host.slashTmpPath.components := by
  rw [Host.namesSlashTmp, Bool.and_eq_true, beq_iff_eq] at hn
  exact ⟨inferPathConvention_of_toAbsPath hn.2, lexicalSegments_of_toAbsPath hn.2 hs⟩

theorem startsWith_of_posix {other : PathUri} {segs : List Text}
    (ht : target.inferPathConvention = some .posix)
    (hse : target.lexicalSegments = some segs)
    (hot : other.inferPathConvention = some .posix)
    (ho : other.lexicalSegments = some segs)
    (hs : path.startsWith target = true) : path.startsWith other = true := by
  obtain ⟨found, convention, hf, ha, hi, hi', hp⟩ :=
    (startsWith_iff hse).mp hs
  rw [startsWith_iff ho]
  refine ⟨found, convention, hf, ?_, hi, ?_, hp⟩
  · rw [ha, authority_of_posix ht, authority_of_posix hot]
  · rw [hot, ← ht, hi']

theorem eq_of_specialPathsShareTarget {left right : FileSystemSpecialPath}
    (h : Host.specialPathsShareTarget left right = true) : left = right := by
  cases left <;> cases right <;> simp_all [Host.specialPathsShareTarget]

theorem encloses_of_specialPathMatches {value : FileSystemSpecialPath} (hv : value ≠ .root)
    (hm : host.specialPathMatches value target = true)
    (he : Encloses host context path (.path target) depth) :
    Encloses host context path (.special value) depth := by
  obtain ⟨_, ht, hi, hd, hst⟩ := he
  rw [entryPaths, mem_singleton] at ht
  subst ht
  cases value with
  | root => exact absurd rfl hv
  | slashTmp =>
    obtain ⟨_, hs, rfl⟩ := lexicalDepth_eq_some_iff.mp hd
    obtain ⟨hp, rfl⟩ := segments_of_namesSlashTmp hm hs
    refine ⟨slashTmpUri, ?_, ?_, ?_, ?_⟩
    · rw [entryPaths_slashTmp (hi.symm.trans hp)]
      exact mem_singleton_self _
    · rw [inferPathConvention_slashTmpUri, ← hp, hi]
    · exact lexicalDepth_eq_some_iff.mpr ⟨_, lexicalSegments_slashTmpUri, rfl⟩
    · exact startsWith_of_posix hp hs inferPathConvention_slashTmpUri
        lexicalSegments_slashTmpUri hst
  | minimal | projectRoots | tmpdir | unknown => cases hm

/-- A path that the host takes for `/tmp` encloses what the symbolic `/tmp` encloses. -/
theorem encloses_of_namesSlashTmp
    (hu : target.inferPathConvention = context.cwd.inferPathConvention →
      target.lexicalDepth = none → target.isFallback = true)
    (hn : host.namesSlashTmp target = true)
    (he : Encloses host context path (.special .slashTmp) depth) :
    Encloses host context path (.path target) depth := by
  obtain ⟨_, hfn, _, hd, hst⟩ := he
  have hp := posix_of_mem_slashTmp hfn
  rw [entryPaths_slashTmp hp, mem_singleton] at hfn
  subst hfn
  have ha : target.toAbsPath = some Host.slashTmpPath := by
    rw [Host.namesSlashTmp, Bool.and_eq_true, beq_iff_eq] at hn
    exact hn.2
  have ht : target.inferPathConvention = some .posix :=
    inferPathConvention_of_toAbsPath ha
  have hfi : target.isFallback = false :=
    not_isFallback_of_toAbsPath ha (by decide +kernel)
  have hl : target.lexicalSegments ≠ none := by
    intro hno
    have hf := hu (ht.trans hp.symm) (lexicalDepth_eq_none_iff.mpr hno)
    rw [hfi] at hf
    cases hf
  obtain ⟨_, hs⟩ := Option.ne_none_iff_exists'.mp hl
  obtain ⟨-, rfl⟩ := segments_of_namesSlashTmp hn hs
  obtain ⟨_, hc, rfl⟩ := lexicalDepth_eq_some_iff.mp hd
  rw [lexicalSegments_slashTmpUri, Option.some.injEq] at hc
  subst hc
  exact ⟨target, mem_singleton_self target, ht.trans hp.symm,
    lexicalDepth_eq_some_iff.mpr ⟨_, hs, rfl⟩,
    startsWith_of_posix inferPathConvention_slashTmpUri lexicalSegments_slashTmpUri ht hs
      hst⟩

theorem Encloses.of_pathsShareTarget (h : Legible host policy context path)
    {cand entry : FileSystemSandboxEntry} (hc : cand ∈ policy.entries)
    (hp : entry.path ≠ .special .root) (ho : ¬ Overlooked host entry)
    (hs : host.pathsShareTarget cand.path entry.path = true)
    (he : Encloses host context path entry.path depth) :
    Encloses host context path cand.path depth := by
  have hu := h.unambiguous cand hc
  unfold Overlooked at ho
  generalize cand.path = found at hs hu ⊢
  generalize entry.path = place at hp ho hs he
  cases found with
  | globPattern =>
    cases place with
    | globPattern =>
      obtain ⟨_, ht, -⟩ := he
      cases ht
    | path | special => cases hs
  | path left =>
    cases place with
    | globPattern => cases hs
    | path =>
      obtain ⟨_, ht, hi, hd, hst⟩ := he
      rw [entryPaths, mem_singleton] at ht
      subst ht
      rw [Host.pathsShareTarget, same_comm] at hs
      obtain ⟨hlef, hl, hle⟩ := startsWith_of_same hs hd hst
      exact ⟨left, mem_singleton_self left, hle.trans hi, hl, hlef⟩
    | special value =>
      cases value with
      | root => exact absurd rfl hp
      | slashTmp =>
        exact encloses_of_namesSlashTmp (hu left (mem_singleton_self left)) hs he
      | minimal | projectRoots | tmpdir | unknown => cases hs
  | special value =>
    cases place with
    | globPattern => cases hs
    | path target =>
      refine encloses_of_specialPathMatches ?_ hs he
      rintro rfl
      exact ho (.inr ⟨target, rfl, hs⟩)
    | special =>
      rw [eq_of_specialPathsShareTarget hs]
      exact he

/-! ## Agreement -/

theorem exists_root_of_hasRootAccess {predicate : FileSystemAccessMode → Bool}
    (h : policy.hasRootAccess predicate = true) :
    ∃ top ∈ policy.entries, top.path = .special .root ∧ predicate top.access = true := by
  rw [hasRootAccess, Bool.and_eq_true, any_eq_true] at h
  obtain ⟨-, top, ht, hm⟩ := h
  rw [Bool.and_eq_true, beq_iff_eq] at hm
  exact ⟨top, ht, hm⟩

namespace Decides

variable {entry : FileSystemSandboxEntry} {deepest : ℕ}
  (hdec : Decides host policy context path entry deepest)
include hdec

theorem not_encloses {other : FileSystemSandboxEntry} (ho : other ∈ policy.entries)
    (hlt : entry.access < other.access) : ¬ Encloses host context path other.path deepest := by
  intro henc
  rcases hdec.strongest other ho deepest henc with hde | ⟨-, hle⟩
  · exact lt_irrefl _ hde
  · exact absurd hle (not_le.mpr hlt)

theorem not_beaten {allows : FileSystemAccessMode → Bool} :
    ¬ Beaten host policy context path allows entry deepest := by
  rintro ⟨other, ho, -, depth, henc, hlt | ⟨rfl, hlt⟩⟩
  · rcases hdec.strongest other ho depth henc with hd | ⟨hd, -⟩
    · exact lt_asymm hlt hd
    · exact absurd hd hlt.ne'
  · exact hdec.not_encloses ho hlt henc

theorem beaten {allows : FileSystemAccessMode → Bool} (ha : allows entry.access = true)
    {other : FileSystemSandboxEntry} (ho : other ∈ policy.entries)
    (hn : allows other.access = false) (henc : Encloses host context path other.path depth) :
    Beaten host policy context path allows other depth := by
  refine ⟨entry, hdec.mem, ha, deepest, hdec.encloses, ?_⟩
  rcases hdec.strongest other ho depth henc with hlt | ⟨heq, hle⟩
  · exact .inl hlt
  · refine .inr ⟨heq, lt_of_le_of_ne hle ?_⟩
    intro hsame
    rw [hsame, ha] at hn
    cases hn

/-- The write shortcut overlooks an entry that decides against writing. -/
theorem overlooked_of_not_narrowsWrite (h : Legible host policy context path)
    (hroot : policy.hasRootAccess (·.canWrite) = true) (hk : policy.narrowsWrite host entry = false)
    (hw : entry.access.canWrite = false) : Overlooked host entry := by
  by_contra hov
  have he := hdec.encloses
  have ho (hp : entry.path ≠ .special .root) :
      policy.hasSameTargetWriteOverride host entry = false := by
    rw [Bool.eq_false_iff, Ne, hasSameTargetWriteOverride, any_eq_true]
    rintro ⟨cand, hc, hm⟩
    simp only [Bool.and_eq_true, decide_eq_true_eq] at hm
    exact hdec.not_encloses hc hm.1.2 (he.of_pathsShareTarget h hc hp hov hm.2)
  unfold narrowsWrite at hk
  rw [hw, Bool.not_false, Bool.true_and] at hk
  cases hp : entry.path with
  | path =>
    rw [hp, ho (by rw [hp]; nofun)] at hk
    cases hk
  | globPattern =>
    rw [hp] at hk
    cases hk
  | special value =>
    rw [hp] at hk he
    cases value with
    | root =>
      obtain ⟨top, htop, hto, ht⟩ := exists_root_of_hasRootAccess hroot
      rw [canWrite_iff] at ht
      refine hdec.not_encloses htop ?_ (hto ▸ he)
      rw [ht]
      cases ha : entry.access with
      | read => decide
      | write =>
        rw [ha] at hw
        cases hw
      | deny =>
        rw [ha] at hk
        cases hk
    | slashTmp =>
      dsimp only at hk
      rw [ho (by rw [hp]; nofun), Bool.not_false, Bool.and_true] at hk
      exact hov (.inl ⟨hp, hk⟩)
    | projectRoots | tmpdir =>
      rw [ho (by rw [hp]; nofun)] at hk
      cases hk
    | minimal | unknown =>
      obtain ⟨_, htg, -⟩ := he
      cases htg

end Decides

theorem covered_of_allows {allows : FileSystemAccessMode → Bool} (hr : policy.isRestricted = true)
    (hdeny : allows .deny = false)
    (h : allows (policy.resolveAccess host context path) = true) :
    Covered host policy context path allows := by
  have hne : policy.resolveAccess host context path ≠ .deny := by
    intro heq
    rw [heq, hdeny] at h
    cases h
  have hl := legible_of_resolveAccess hr hne
  have henc := exists_encloses_of_resolveAccess hr hl hne
  obtain ⟨entry, deepest, hdec⟩ := exists_decides hr hl henc
  rw [hdec.access] at h
  exact ⟨hl, henc, fun other ho _ hn depth he => hdec.beaten h ho hn he⟩

theorem Covered.allows {allows : FileSystemAccessMode → Bool} (hr : policy.isRestricted = true)
    (hc : Covered host policy context path allows)
    (hov : ∀ entry deepest, Decides host policy context path entry deepest →
      allows entry.access = false → Overlooked host entry) :
    allows (policy.resolveAccess host context path) = true := by
  obtain ⟨entry, deepest, hdec⟩ := exists_decides hr hc.legible hc.enclosed
  rw [hdec.access]
  by_contra hn
  rw [Bool.not_eq_true] at hn
  exact hdec.not_beaten
    (hc.beaten entry hdec.mem (hov entry deepest hdec hn) hn deepest hdec.encloses)

end FileSystemSandboxPolicy

end Slopdex.Permissions
