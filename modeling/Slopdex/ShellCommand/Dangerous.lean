import Mathlib.Data.List.DropRight
import Mathlib.Logic.Relation
import Slopdex.Protocol.Types

/-!
# Dangerous commands

A command is dangerous by itself or because of a command that it runs. The literal commands of a
shell script and the rules for Windows are parameters.
-/

namespace Slopdex.ShellCommand

open Protocol (Text)
open List

inductive DangerousCommandPlatform
  | posix
  | windows
  deriving DecidableEq

inductive DangerousCommandMatch
  | forcedRm
  | other
  deriving DecidableEq

/-- `parse_shell_lc_literal_commands` and `is_dangerous_command_windows` -/
structure Rules where
  literalCommands : List Text → Option (List (List Text))
  dangerousWindows : List Text → Bool

def maxDangerousCommandWrapperDepth : ℕ := 8

def withoutDrive : Text → Text
  | drive :: ':' :: name => if drive.isAlpha then name else drive :: ':' :: name
  | name => name

def executableNameLookupKey (raw : Text) : DangerousCommandPlatform → Option Text
  | .posix => some (raw.rtakeWhile (· ≠ '/')) |>.filter (· ≠ [])
  | .windows => do
    let name ← some (raw.rtakeWhile fun c ↦ c ≠ '/' ∧ c ≠ '\\') |>.filter (· ≠ [])
    let name := (withoutDrive name).map Char.toLower
    match [".exe", ".cmd", ".bat", ".com"].find? fun suffix ↦ suffix.toList.isSuffixOf name with
    | some suffix => some (name.take (name.length - suffix.length))
    | none => some name |>.filter (· ≠ [])

def rmArgsIncludeForceOption (args : List Text) : Bool :=
  (args.takeWhile (· ≠ "--".toList)).any fun arg ↦ arg = "--force".toList ||
    match arg with
    | '-' :: flags => flags.head? ≠ some '-' && 'f' ∈ flags
    | _ => false

/-- The command that `env` runs with these arguments -/
def envCommand : List Text → List Text
  | [] => []
  | argument :: rest =>
    let name := argument.takeWhile (· ≠ '=')
    if argument = "--".toList then rest
    else if argument = "-i".toList ∨ argument = "--ignore-environment".toList ∨
        '=' ∈ argument ∧ name ≠ [] ∧ name.head? ≠ some '-' then envCommand rest
    else argument :: rest

def trapAction (args : List Text) : Option Text :=
  (if args.head? = some "--".toList then args.tail else args).head?.filter (·.head? ≠ some '-')

variable (rules : Rules) (platform : DangerousCommandPlatform)

/-- What a command is called without its path -/
def program (command : List Text) : Option String :=
  (command.head?.bind (executableNameLookupKey · platform)).map String.ofList

/-- `nested` classifies what the command runs, one level deeper. -/
def dangerousCommandMatchForExec (nested : List Text → Option DangerousCommandMatch)
    (command : List Text) : Option DangerousCommandMatch :=
  match program platform command with
  | some "rm" => if rmArgsIncludeForceOption command.tail then some .forcedRm else none
  | some "sudo" => nested command.tail
  | some "env" => nested (envCommand command.tail)
  | some "trap" => (trapAction command.tail).bind fun action ↦
      nested ["sh".toList, "-c".toList, action]
  | _ => none

/-- The classification with so many levels left; a command that is nested too deep is dangerous. -/
def dangerousCommandMatchWithDepth : ℕ → List Text → Option DangerousCommandMatch
  | 0, _ => some .other
  | depth + 1, command =>
    (dangerousCommandMatchForExec platform (dangerousCommandMatchWithDepth depth) command).or <|
    ((rules.literalCommands command).bind
      (·.findSome? (dangerousCommandMatchWithDepth depth))).or <|
    if platform = .windows ∧ rules.dangerousWindows command then some .other else none

def dangerousCommandMatchForPlatform (command : List Text) : Option DangerousCommandMatch :=
  dangerousCommandMatchWithDepth rules platform (maxDangerousCommandWrapperDepth + 1) command

def Direct (command : List Text) : Prop :=
  program platform command = some "rm" ∧ rmArgsIncludeForceOption command.tail ∨
    platform = .windows ∧ rules.dangerousWindows command

/-- The commands that a command runs -/
inductive Runs (command : List Text) : List Text → Prop
  | bySudo : program platform command = some "sudo" → Runs command command.tail
  | byEnv : program platform command = some "env" → Runs command (envCommand command.tail)
  | byTrap {action : Text} : program platform command = some "trap" →
    trapAction command.tail = some action → Runs command ["sh".toList, "-c".toList, action]
  | byScript {commands : List (List Text)} {inner : List Text} :
    rules.literalCommands command = some commands → inner ∈ commands → Runs command inner

/-- The commands that a command runs at a depth -/
inductive RunsAt : ℕ → List Text → List Text → Prop
  | self (command : List Text) : RunsAt 0 command command
  | nested {depth : ℕ} {command middle inner : List Text} : Runs rules platform command middle →
    RunsAt depth middle inner → RunsAt (depth + 1) command inner

variable {rules platform} {command inner : List Text} {depth : ℕ}

theorem direct_or_runs_of_forExec {nested : List Text → Option DangerousCommandMatch}
    (h : (dangerousCommandMatchForExec platform nested command).isSome) :
    Direct rules platform command ∨
      ∃ inner, Runs rules platform command inner ∧ (nested inner).isSome := by
  unfold dangerousCommandMatchForExec at h
  split at h
  · next hrm =>
    split at h
    · next hforce => exact .inl (.inl ⟨hrm, hforce⟩)
    · cases h
  · next hsudo => exact .inr ⟨_, .bySudo hsudo, h⟩
  · next henv => exact .inr ⟨_, .byEnv henv, h⟩
  · next htrap =>
    obtain ⟨_, hsome⟩ := Option.isSome_iff_exists.mp h
    obtain ⟨action, haction, hnested⟩ := Option.bind_eq_some_iff.mp hsome
    exact .inr ⟨_, .byTrap htrap haction, hnested ▸ rfl⟩
  · cases h

theorem isSome_withDepth_succ :
    (dangerousCommandMatchWithDepth rules platform (depth + 1) command).isSome ↔
      Direct rules platform command ∨ ∃ inner, Runs rules platform command inner ∧
        (dangerousCommandMatchWithDepth rules platform depth inner).isSome := by
  rw [dangerousCommandMatchWithDepth, Option.isSome_or, Option.isSome_or, Bool.or_eq_true,
    Bool.or_eq_true]
  constructor
  · rintro (hexec | hscript | hwin)
    · exact direct_or_runs_of_forExec hexec
    · obtain ⟨_, hsome⟩ := Option.isSome_iff_exists.mp hscript
      obtain ⟨commands, hcommands, hfound⟩ := Option.bind_eq_some_iff.mp hsome
      obtain ⟨inner, hmem, hinner⟩ := exists_of_findSome?_eq_some hfound
      exact .inr ⟨inner, .byScript hcommands hmem, hinner ▸ rfl⟩
    · refine .inl (.inr ?_)
      by_contra hnot
      simp [hnot] at hwin
  · rintro ((⟨hrm, hforce⟩ | hwin) | ⟨inner, hruns, hsome⟩)
    · simp [dangerousCommandMatchForExec, hrm, hforce]
    · simp [hwin]
    · cases hruns with
      | bySudo hsudo => simp [dangerousCommandMatchForExec, hsudo, hsome]
      | byEnv henv => simp [dangerousCommandMatchForExec, henv, hsome]
      | byTrap htrap haction =>
        exact .inl (by simpa [dangerousCommandMatchForExec, htrap, haction] using hsome)
      | byScript hcommands hmem =>
        refine .inr (.inl ?_)
        rw [hcommands, Option.bind_some, findSome?_isSome_iff]
        exact ⟨inner, hmem, hsome⟩

theorem isSome_withDepth_iff : (dangerousCommandMatchWithDepth rules platform depth command).isSome ↔
    (∃ n < depth, ∃ inner, RunsAt rules platform n command inner ∧ Direct rules platform inner) ∨
      ∃ inner, RunsAt rules platform depth command inner := by
  induction depth generalizing command with
  | zero => exact iff_of_true rfl (.inr ⟨command, .self command⟩)
  | succ depth ih =>
    simp only [isSome_withDepth_succ, ih]
    constructor
    · rintro (hdirect | ⟨middle, hruns, ⟨n, hn, inner, hat, hdirect⟩ | ⟨inner, hat⟩⟩)
      · exact .inl ⟨0, Nat.succ_pos _, command, .self command, hdirect⟩
      · exact .inl ⟨n + 1, Nat.succ_lt_succ hn, inner, .nested hruns hat, hdirect⟩
      · exact .inr ⟨inner, .nested hruns hat⟩
    · rintro (⟨n, hn, inner, hat, hdirect⟩ | ⟨inner, hat⟩)
      · cases hat with
        | self => exact .inl hdirect
        | nested hruns hat =>
          exact .inr ⟨_, hruns, .inl ⟨_, Nat.lt_of_succ_lt_succ hn, inner, hat, hdirect⟩⟩
      · cases hat with
        | nested hruns hat => exact .inr ⟨_, hruns, .inr ⟨inner, hat⟩⟩

theorem isSome_withDepth_of_succ
    (h : (dangerousCommandMatchWithDepth rules platform (depth + 1) command).isSome) :
    (dangerousCommandMatchWithDepth rules platform depth command).isSome := by
  induction depth generalizing command with
  | zero => rfl
  | succ depth ih =>
    rw [isSome_withDepth_succ] at h ⊢
    exact h.imp_right fun ⟨inner, hruns, hsome⟩ ↦ ⟨inner, hruns, ih hsome⟩

end Slopdex.ShellCommand
