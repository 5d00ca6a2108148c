import Slopdex.Patch.Reference

/-!
# What the changes of a run say

A run reports the changes that it has made, whether it succeeds or not. As long as it is exact they
can be replayed on the text files at its start. The replay reads a move as the hunk means it, so that
it gives the text files at the end unless a file was lost by a move onto itself. The hunk that ends a
run can still write a lost file. If it is itself such a move it can have got as far as the removal,
and a failed removal that put the old text back is taken for one without effect.
-/

namespace Slopdex.Patch

open Protocol (Text)
open Library.Effects

variable {World Path : Type} [DecidableEq Path] {fs : ExecutorFileSystem World Path}
  {view : World → View Path} {uris : PathUris Path} {cwd : Path}
  {updateFileMode : ApplyPatchFileUpdateMode} {hunks done : List Hunk} {hunk : Hunk} {world : World}
  {start : View Path} {run run' : PatchRun World Path}

def Recorded (view : World → View Path) (uris : PathUris Path) (cwd : Path) (start : View Path)
    (hunks : List Hunk) (run : PatchRun World Path) : Prop :=
  run.delta.isExact = true → ∃ files meant, view run.world = { start with files := files } ∧
    Diverges (lostPaths uris cwd hunks) files meant ∧
      replayAll run.delta.changes (textFiles start.files) = textFiles meant

def Replays (view : World → View Path) (start : View Path) (run : PatchRun World Path) : Prop :=
  replayAll run.delta.changes (textFiles start.files) = textFiles (view run.world).files

namespace Recorded

theorem nil : Recorded view uris cwd (view world) [] { world := world } := by
  intro _
  refine ⟨(view world).files, (view world).files, rfl, ?_, rfl⟩
  rw [lostPaths_eq_empty (by simp)]
  exact ⟨by simp, fun _ _ => rfl⟩

theorem concat (h : Recorded view uris cwd start done run)
    (hcmpd : Completed uris cwd updateFileMode view False hunk run run') :
    Recorded view uris cwd start (done ++ [hunk]) run' := by
  intro hexact
  obtain ⟨files, meant, hview, hd, hre⟩ := h (hcmpd.isExact hexact)
  obtain ⟨files', he, hv'⟩ := hcmpd.effect (.inl hexact)
  obtain ⟨change, hc, hr⟩ := hcmpd.record hexact
  rw [hview] at he hv' hr
  obtain ⟨meant', hm', hd'⟩ := hd.apply he
  -- a file that is there is not lost, so the hunk is meant for the same contents
  have ha (path : Path) (contents : FileContents) (_ : hunk.source uris cwd = some path)
      (hf : files path = some contents) : meant path = some contents := by
    rw [← hd.same path (hd.notMem (by simp [hf])), hf]
  refine ⟨files', meant', hv', hd', ?_⟩
  calc replayAll run'.delta.changes (textFiles start.files)
      = change.replay (replayAll run.delta.changes (textFiles start.files)) := by
        rw [hc, replayAll_append]
        rfl
    _ = change.replay (textFiles meant) := by rw [hre]
    _ = textFiles meant' := hr meant meant' ha hm'

theorem replays_iff (h : Recorded view uris cwd start hunks run)
    (hexact : run.delta.isExact = true) :
    Replays view start run ↔ lostPaths uris cwd hunks = ∅ := by
  obtain ⟨_, _, hview, hd, hr⟩ := h hexact
  rw [Replays, hr, hview]
  exact hd.textFiles_eq_iff

end Recorded

/-- The files that have been lost are all written by the hunk that fails, and a move onto itself that
fails with the removal means no change. -/
structure Accounted (fs : ExecutorFileSystem World Path) (view : World → View Path)
    (uris : PathUris Path) (cwd : Path) (updateFileMode : ApplyPatchFileUpdateMode)
    (done : List Hunk) (hunk : Hunk) (run : PatchRun World Path) : Prop where
  written : ∀ path ∈ lostPaths uris cwd done, hunk.dest uris cwd = some path ∧
    Writes uris cwd updateFileMode fs hunk run
  unaltered : hunk.IsSelfMove uris cwd → Removes uris cwd updateFileMode fs hunk run →
    hunkReference uris cwd updateFileMode hunk (view run.world).files = some (view run.world).files

theorem accounted_iff_of_not (hw : ¬ Writes uris cwd updateFileMode fs hunk run)
    (hr : ¬ Removes uris cwd updateFileMode fs hunk run) :
    Accounted fs view uris cwd updateFileMode done hunk run ↔ lostPaths uris cwd done = ∅ := by
  constructor
  · intro h
    rw [Set.eq_empty_iff_forall_notMem]
    exact fun path hpath => hw (h.written path hpath).2
  · intro h
    exact ⟨by simp [h], fun _ hrem => absurd hrem hr⟩

theorem accounted_iff_of_writes {dest : Path} (hd : hunk.dest uris cwd = some dest)
    (hw : Writes uris cwd updateFileMode fs hunk run) :
    Accounted fs view uris cwd updateFileMode done hunk run ↔
      lostPaths uris cwd done \ {dest} = ∅ ∧ (hunk.IsSelfMove uris cwd →
        Removes uris cwd updateFileMode fs hunk run →
          hunkReference uris cwd updateFileMode hunk (view run.world).files =
            some (view run.world).files) := by
  rw [Set.sdiff_eq_empty]
  constructor
  · intro h
    refine ⟨fun path hpath => ?_, h.unaltered⟩
    have heq := (h.written path hpath).1
    rw [hd, Option.some.injEq] at heq
    exact heq.symm
  · rintro ⟨hsub, hu⟩
    refine ⟨fun path hpath => ⟨?_, hw⟩, hu⟩
    rw [hd, hsub hpath]

namespace Recorded

/-- The failed move has written its destination and left everything else. -/
theorem replays_iff_of_set {dest : Path} {contents : Text} {overwritten : Option Text}
    (h : Recorded view uris cwd start done run) (hexact : run.delta.isExact = true)
    (hc : run'.delta.changes = run.delta.changes ++ [⟨dest, .add contents overwritten⟩])
    (hv : view run'.world = (view run.world).set dest (some (.text contents))) :
    Replays view start run' ↔ lostPaths uris cwd done \ {dest} = ∅ := by
  obtain ⟨files, meant, hview, hd, hre⟩ := h hexact
  have hmeant : replayAll run'.delta.changes (textFiles start.files) =
      textFiles (Function.update meant dest (some (.text contents))) := by
    rw [hc, replayAll_append, hre, textFiles_update]
    rfl
  rw [Replays, hmeant, hv, hview]
  exact (hd.update dest _).textFiles_eq_iff

/-- A failed move onto itself has the old text. -/
theorem not_replays_of_restored {path : Path} {original contents : Text} {overwritten : Option Text}
    (h : Recorded view uris cwd start done run) (hexact : run.delta.isExact = true)
    (hc : run'.delta.changes = run.delta.changes ++ [⟨path, .add contents overwritten⟩])
    (hf : (view run'.world).files path = some (.text original)) (hne : original ≠ contents) :
    ¬ Replays view start run' := by
  obtain ⟨_, meant, -, -, hre⟩ := h hexact
  intro hr
  rw [Replays, hc, replayAll_append, hre] at hr
  have hpath := congrFun hr path
  simp [replayAll, AppliedPatchChange.replay, textFiles, hf, FileContents.toText] at hpath
  exact hne hpath.symm

theorem replays_iff_of_left {path dest : Path} {original contents : Text}
    (h : Recorded view uris cwd start done run) (hexact : run.delta.isExact = true)
    (hs : hunk.source uris cwd = some path) (hd : hunk.dest uris cwd = some dest)
    (hf : (view run.world).files path = some (.text original))
    (href : hunkReference uris cwd updateFileMode hunk (view run.world).files =
      some (removeThenWrite (view run.world).files path dest contents))
    (hw : Writes uris cwd updateFileMode fs hunk run)
    (hl : Left view (Removes uris cwd updateFileMode fs hunk run) path dest original contents run run') :
    Replays view start run' ↔ Accounted fs view uris cwd updateFileMode done hunk run := by
  rw [accounted_iff_of_writes hd hw, href]
  cases hl with
  | written hr overwritten hc hv =>
    rw [h.replays_iff_of_set hexact hc hv]
    exact (and_iff_left fun _ hrem => absurd hrem hr).symm
  | restored hr overwritten hc hv =>
    by_cases hpd : path = dest
    · subst hpd
      by_cases heq : original = contents
      · subst heq
        rw [View.set_set] at hv
        rw [h.replays_iff_of_set hexact hc hv]
        refine (and_iff_left fun _ _ => ?_).symm
        rw [removeThenWrite, Function.update_idem, ← hf, Function.update_eq_self]
      · refine iff_of_false ?_ ?_
        · exact h.not_replays_of_restored hexact hc (by simp [hv, View.set]) heq
        · rintro ⟨-, hu⟩
          have hsame := congrFun (Option.some.inj (hu ⟨path, hs, hd⟩ hr)) path
          simp [removeThenWrite, hf] at hsame
          exact heq hsame.symm
    · have hself : ¬ hunk.IsSelfMove uris cwd := by
        rintro ⟨_, hot, ho⟩
        rw [hs, Option.some.injEq] at hot
        rw [hd, Option.some.injEq] at ho
        exact hpd (hot.trans ho.symm)
      -- the source has been read before, so that nothing is put back
      have hv' : view run'.world = (view run.world).set dest (some (.text contents)) := by
        rw [hv, View.set, View.set, Function.update_comm (Ne.symm hpd), ← hf, Function.update_eq_self]
      rw [h.replays_iff_of_set hexact hc hv']
      exact (and_iff_left fun hsm _ => absurd hsm hself).symm

theorem replays_iff_of_interrupted (h : Recorded view uris cwd start done run)
    (hintr : Interrupted uris cwd updateFileMode view fs hunk run run')
    (hexact : run'.delta.isExact = true) :
    Replays view start run' ↔ Accounted fs view uris cwd updateFileMode done hunk run := by
  obtain ⟨he, ⟨hw, hr, hu⟩ | ⟨hw, path, dest, original, contents, hs, hd, hf, href, hl⟩⟩ := hintr hexact
  · rw [accounted_iff_of_not hw hr, ← h.replays_iff he, Replays, Replays, hu.changes, hu.world]
  · exact h.replays_iff_of_left he hs hd hf href hw hl

end Recorded

/-- An exact run that succeeds reports changes that give its files if and only if no file stays lost,
and one that fails at a hunk if and only if that hunk accounts for what was lost before it. -/
theorem applyHunksToFiles_replays (hfs : Behaves fs view)
    (hnamed : ∀ hunk ∈ hunks, ∀ path, hunk.Names uris cwd path →
      (view world).plain path ∨ (view world).link path) :
    Outcome (applyHunksToFiles fs uris cwd updateFileMode hunks) { world := world }
      (fun _ run' => run'.delta.isExact = true →
        (Replays view (view world) run' ↔ lostPaths uris cwd hunks = ∅))
      (fun error run' => run'.delta.isExact = true →
        (hunks = [] ∧ Replays view (view world) run') ∨
        ∃ done hunk rest before, hunks = done ++ hunk :: rest ∧
          done.forM (applyHunk fs uris cwd updateFileMode) { world := world } = .ok () before ∧
          applyHunk fs uris cwd updateFileMode hunk before = .error error run' ∧
          (Replays view (view world) run' ↔
            Accounted fs view uris cwd updateFileMode done hunk before)) := by
  unfold applyHunksToFiles
  split
  · next hempty => exact fun _ => .inl ⟨List.isEmpty_iff.mp hempty, rfl⟩
  have hloop : Outcome (hunks.forM (applyHunk fs uris cwd updateFileMode)) { world := world }
      (fun _ run' => Recorded view uris cwd (view world) hunks run')
      (fun error run' => run'.delta.isExact = true → ∃ done hunk rest before,
        hunks = done ++ hunk :: rest ∧
          done.forM (applyHunk fs uris cwd updateFileMode) { world := world } = .ok () before ∧
          applyHunk fs uris cwd updateFileMode hunk before = .error error run' ∧
          (Replays view (view world) run' ↔
            Accounted fs view uris cwd updateFileMode done hunk before)) := by
    apply outcome_forM_of_run
    · intro done hunk rest hhunks before hdone hrecd
      have hmem : hunk ∈ hunks := by simp [hhunks]
      have hnamed' (path : Path) (hpath : hunk.Names uris cwd path) :
          Named view False before path := by
        refine ⟨fun hexact => ?_, False.elim⟩
        obtain ⟨_, _, hview, -⟩ := hrecd hexact
        rw [hview]
        exact hnamed hunk hmem path hpath
      apply (applyHunk_spec hfs hunk hnamed').and_result.mono
      · rintro _ _ ⟨-, hcmpd⟩
        exact hrecd.concat hcmpd
      · rintro _ _ ⟨hfail, hintr⟩ hexact
        exact ⟨done, hunk, rest, before, hhunks, hdone, hfail,
          hrecd.replays_iff_of_interrupted hintr hexact⟩
    · exact Recorded.nil
  apply hloop.mono
  · intro _ _ hrecd hexact
    exact hrecd.replays_iff hexact
  · exact fun _ _ h hexact => .inr (h hexact)

theorem applyHunksToFiles_replays_sampleUpdate : ∃ run',
    applyHunksToFiles (memoryFileSystem fun _ => false) flatUris [] .preserveLineEndings
      [sampleUpdate (some "b".toList)] { world := sampleFiles } = .ok () run' ∧
    run'.delta.isExact = true ∧ Replays memoryView (memoryView sampleFiles) run' := by
  obtain ⟨run', hrun, hexact⟩ := sampleUpdate_succeeds
  refine ⟨run', hrun, hexact, ?_⟩
  apply ((applyHunksToFiles_replays (memoryFileSystem_behaves _)
    fun _ _ _ _ => .inl trivial).of_ok hrun hexact).mpr
  exact lostPaths_sampleUpdate

theorem applyHunksToFiles_exact_selfMove_not_replays : ∃ run',
    applyHunksToFiles (memoryFileSystem fun _ => false) flatUris [] .preserveLineEndings
      [sampleUpdate (some "a".toList)] { world := sampleFiles } = .ok () run' ∧
    run'.delta.isExact = true ∧ ¬ Replays memoryView (memoryView sampleFiles) run' := by
  refine ⟨_, rfl, rfl, ?_⟩
  intro h
  exact absurd (congrFun h "a".toList) (by decide)

end Slopdex.Patch
