import Slopdex.Permissions.Policy

/-!
# The order of the entries

Which access an entry gives does not depend on its place in the policy, as the deepest entry
decides. The protection of metadata takes the first protected directory around the path, and where
write roots lie within each other's metadata the order decides which one that is.
-/

namespace Slopdex.Permissions.FileSystemSandboxPolicy

open Protocol (Text)
open Library.Specificity List

variable {policy : FileSystemSandboxPolicy} {entries : List FileSystemSandboxEntry}
  (host : Host) (context : FileSystemSandboxPolicyContext) (path : PathUri)

/-- The protected directories of write roots that the path is in, with their names, in the order in
which the code finds them. -/
def guards (policy : FileSystemSandboxPolicy) : List (PathUri × Text) :=
  ((policy.resolvedEntries host context).filter fun entry ↦ entry.2.canWrite).flatMap fun entry ↦
    protectedMetadataPathNames.filterMap fun name ↦
      (entry.1.joinDescendant host.windows name).bind fun guarded ↦
        if path.startsWith guarded then some (guarded, name) else none

/-- An entry for writing at or below the directory contains the path. -/
def opens (policy : FileSystemSandboxPolicy) (guarded : PathUri) : Bool :=
  (policy.resolvedEntries host context).any fun entry ↦
    entry.2.canWrite && path.startsWith entry.1 && entry.1.startsWith guarded

/-- The directory that the entry is the first to protect, if the code looks at it first. -/
def firstGuard (entry : FileSystemSandboxEntry) : Option (PathUri × Text) :=
  (guards host context path ⟨.restricted, [entry]⟩).head?

variable (policy) in
theorem head?_guards : (policy.guards host context path).head? =
    policy.entries.findSome? (firstGuard host context path) := by
  have hguards : policy.guards host context path =
      policy.entries.flatMap fun entry ↦ guards host context path ⟨.restricted, [entry]⟩ := by
    simp only [guards, resolvedEntries, filter_flatMap, flatMap_assoc, flatMap_singleton]
  rw [hguards, head?_flatMap]
  rfl

/-- Only the first protected directory is asked whether it is opened. -/
theorem canWritePath_eq : policy.canWritePath host context path =
    ((policy.resolveAccess host context path).canWrite && (policy.hasFullDiskWriteAccess host ||
      (policy.guards host context path).head?.all fun guard ↦
        policy.opens host context path guard.1)) := by
  by_cases hrestricted : policy.isRestricted = true
  · have hdenial : policy.metadataWriteDenial host context path =
        (policy.guards host context path).head?.bind fun guard ↦
          if policy.opens host context path guard.1 then none else some guard.2 := by
      rw [guards, head?_flatMap]
      simp only [metadataWriteDenial, hrestricted, head?_filterMap]
      rfl
    rw [canWritePath, hdenial]
    cases (policy.guards host context path).head? with
    | none => rfl
    | some guard => cases hopens : policy.opens host context path guard.1 <;> simp [hopens]
  · have hfull : policy.hasFullDiskWriteAccess host = true := by
      rw [hasFullDiskWriteAccess]
      cases hkind : policy.kind <;> simp_all [isRestricted]
    rw [canWritePath, hfull, Bool.true_or, Bool.true_or]

section

variable (hperm : entries.Perm policy.entries)
include hperm

theorem resolvedEntries_perm : ({ policy with entries }.resolvedEntries host context).Perm
    (policy.resolvedEntries host context) :=
  hperm.flatMap_right _

theorem guards_perm : ({ policy with entries }.guards host context path).Perm
    (policy.guards host context path) :=
  ((resolvedEntries_perm host context hperm).filter _).flatMap_right _

theorem resolveAccess_perm : { policy with entries }.resolveAccess host context path =
    policy.resolveAccess host context path := by
  have hr := resolvedEntries_perm host context hperm
  have hkind : { policy with entries }.isRestricted = policy.isRestricted := rfl
  simp only [resolveAccess, rankedEntries, hr.any_eq, hkind]
  split_ifs
  · rfl
  · rfl
  · rfl
  · rfl
  · exact mostSpecific_perm (((hr.filterMap _).filter _).map _)

theorem hasFullDiskWriteAccess_perm : { policy with entries }.hasFullDiskWriteAccess host =
    policy.hasFullDiskWriteAccess host := by
  have hnarrows : narrowsWrite host { policy with entries } = narrowsWrite host policy := by
    funext entry
    simp only [narrowsWrite, hasSameTargetWriteOverride, hperm.any_eq]
  simp only [hasFullDiskWriteAccess, hasRootAccess, hasWriteNarrowingEntries, isRestricted,
    hperm.any_eq, hnarrows]

/-- All that the order decides is which protected directory comes first. -/
theorem canWritePath_perm : { policy with entries }.canWritePath host context path =
    ((policy.resolveAccess host context path).canWrite && (policy.hasFullDiskWriteAccess host ||
      (entries.findSome? (firstGuard host context path)).all fun guard ↦
        policy.opens host context path guard.1)) := by
  have hopens : { policy with entries }.opens host context path =
      policy.opens host context path := by
    funext guarded
    exact (resolvedEntries_perm host context hperm).any_eq
  rw [canWritePath_eq, resolveAccess_perm host context path hperm,
    hasFullDiskWriteAccess_perm host hperm, head?_guards, hopens]

end

theorem mem_guards_of_firstGuard {entry : FileSystemSandboxEntry} (hentry : entry ∈ policy.entries)
    {guard : PathUri × Text} (h : guard ∈ firstGuard host context path entry) :
    guard ∈ policy.guards host context path := by
  have hmem := mem_of_mem_head? h
  simp only [guards, resolvedEntries, mem_flatMap, mem_filter, mem_singleton, exists_eq_left] at hmem ⊢
  obtain ⟨resolved, ⟨hresolved, hwrite⟩, hguard⟩ := hmem
  exact ⟨resolved, ⟨⟨entry, hentry, hresolved⟩, hwrite⟩, hguard⟩

/-- The decision on writing a path does not depend on the order of the entries, and without full-disk
write access every protected directory around a writable path is opened by an entry at or below it, if
and only if the policy has full-disk write access, or gives the path no write access at all, or all
the protected directories around the path are opened, or no entry's first one is. -/
theorem protected_path_opened_in_any_order (policy : FileSystemSandboxPolicy) :
    ((∀ entries, entries.Perm policy.entries → { policy with entries }.canWritePath host context path =
        policy.canWritePath host context path) ∧
      (policy.hasFullDiskWriteAccess host = false → policy.canWritePath host context path = true →
        ∀ guard ∈ policy.guards host context path, ∃ entry ∈ policy.resolvedEntries host context,
          entry.2.canWrite = true ∧ path.startsWith entry.1 = true ∧
            entry.1.startsWith guard.1 = true)) ↔
      policy.hasFullDiskWriteAccess host = true ∨
      (policy.resolveAccess host context path).canWrite = false ∨
      (∀ guard ∈ policy.guards host context path, policy.opens host context path guard.1 = true) ∨
      ∀ entry ∈ policy.entries, ∀ guard ∈ firstGuard host context path entry,
        policy.opens host context path guard.1 = false := by
  have hopened (guard : PathUri × Text) : policy.opens host context path guard.1 = true ↔
      ∃ entry ∈ policy.resolvedEntries host context, entry.2.canWrite = true ∧
        path.startsWith entry.1 = true ∧ entry.1.startsWith guard.1 = true := by
    simp [opens, and_assoc]
  simp only [← hopened]
  have hself := canWritePath_perm host context path (Perm.refl policy.entries)
  have hpolicy : ({ policy with entries := policy.entries } : FileSystemSandboxPolicy) = policy := rfl
  rw [hpolicy] at hself
  constructor
  · rintro ⟨horder, hguards⟩
    by_contra hcond
    simp only [not_or, Bool.not_eq_true, Bool.not_eq_false, not_forall] at hcond
    obtain ⟨hfull, haccess, hunopened, entry, hentry, guard, hguard, hopens⟩ := hcond
    obtain ⟨other, hother, hclosed⟩ := hunopened
    -- the policy that looks at the entry with the opened directory first permits the write
    obtain ⟨before, after, hsplit⟩ := append_of_mem hentry
    have hmoved : (entry :: (before ++ after)).Perm policy.entries := hsplit ▸ perm_middle.symm
    have hfirst := canWritePath_perm host context path hmoved
    rw [findSome?_cons, Option.mem_def.mp hguard, haccess, hfull, Option.all_some, hopens,
      horder _ hmoved] at hfirst
    rw [hguards hfull hfirst other hother] at hclosed
    cases hclosed
  · rintro (hfull | haccess | hopen | hclosed)
    · refine ⟨fun entries hperm ↦ ?_, fun hnot ↦ by simp [hfull] at hnot⟩
      simp [canWritePath_perm host context path hperm, hself, hfull]
    · refine ⟨fun entries hperm ↦ ?_, fun _ hwrite ↦ by simp [hself, haccess] at hwrite⟩
      simp [canWritePath_perm host context path hperm, hself, haccess]
    · have hfound {entries : List FileSystemSandboxEntry} (hperm : entries.Perm policy.entries) :
          (entries.findSome? (firstGuard host context path)).all
            (fun guard ↦ policy.opens host context path guard.1) = true := by
        rw [Option.all_eq_true_iff_get]
        intro hsome
        obtain ⟨entry, hentry, hguard⟩ := exists_of_findSome?_eq_some (Option.some_get hsome).symm
        exact hopen _ (mem_guards_of_firstGuard host context path (hperm.mem_iff.mp hentry) hguard)
      refine ⟨fun entries hperm ↦ ?_, fun _ _ ↦ hopen⟩
      rw [canWritePath_perm host context path hperm, hself, hfound hperm, hfound (Perm.refl _)]
    · have hfound {entries : List FileSystemSandboxEntry} (hperm : entries.Perm policy.entries) :
          (entries.findSome? (firstGuard host context path)).all
            (fun guard ↦ policy.opens host context path guard.1) =
              (policy.guards host context path).isEmpty := by
        have hhead := head?_guards { policy with entries } host context path
        have hguards := guards_perm host context path hperm
        cases hfind : entries.findSome? (firstGuard host context path) with
        | none =>
          rw [hfind, head?_eq_none_iff] at hhead
          rw [hhead] at hguards
          simp [hguards.symm.eq_nil]
        | some guard =>
          obtain ⟨entry, hentry, hguard⟩ := exists_of_findSome?_eq_some hfind
          have hmem := hperm.mem_iff.mp hentry
          have hne := ne_nil_of_mem (mem_guards_of_firstGuard host context path hmem hguard)
          simp [hclosed entry hmem guard hguard, hne]
      refine ⟨fun entries hperm ↦ ?_, fun hfull hwrite guard hguard ↦ ?_⟩
      · rw [canWritePath_perm host context path hperm, hself, hfound hperm, hfound (Perm.refl _)]
      · have hne := ne_nil_of_mem hguard
        rw [hself, hfull, hfound (Perm.refl _)] at hwrite
        simp [hne] at hwrite

def unixHost : Host := ⟨.posix, ⟨fun _ _ ↦ none, fun _ ↦ false⟩⟩

def outerRoot : PathUri := .file none ⟨["repo".toList], by decide +kernel⟩

def nestedRoot : PathUri :=
  .file none ⟨["repo".toList, ".git".toList, "x".toList], by decide +kernel⟩

def nestedRoots : FileSystemSandboxPolicy :=
  { kind := .restricted, entries := [⟨.path outerRoot, .write⟩, ⟨.path nestedRoot, .write⟩] }

def nestedRootsReversed : FileSystemSandboxPolicy :=
  { nestedRoots with entries := nestedRoots.entries.reverse }

/-- The nested root has repository data of its own, which the order that looks at the outer root first
leaves unprotected. -/
theorem protected_path_depends_on_order :
    let config : PathUri := .file none ⟨["repo".toList, ".git".toList, "x".toList, ".git".toList,
      "config".toList], by decide +kernel⟩
    nestedRoots.hasFullDiskWriteAccess unixHost = false ∧
      nestedRoots.canWritePath unixHost ⟨outerRoot, [], none⟩ config = true ∧
      nestedRootsReversed.canWritePath unixHost ⟨outerRoot, [], none⟩ config = false := by
  decide +kernel

end Slopdex.Permissions.FileSystemSandboxPolicy
