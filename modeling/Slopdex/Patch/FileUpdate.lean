import Slopdex.Patch.Parser
import Mathlib.Data.List.Sort

/-!
# Updating the text of a file

The chunks of an update are located in the lines of the file, each behind the one before it, and
become replacements of ranges of lines. The historical way splits at line feeds and ends the result
with one, the other one keeps every line's own ending. A panic is an error of its own here.
-/

namespace Slopdex.Patch

open Protocol (Text trim trimEnd)

inductive ApplyPatchFileUpdateMode
  | normalizeToLf
  | preserveLineEndings

/-- The start of a range of lines, its length and the lines that replace it. -/
abbrev Replacement := ℕ × ℕ × List Text

inductive UpdateError
  | computeReplacements (message : Text)
  | panic

/-- Typographic dashes, quotes and spaces as their ASCII equivalents. -/
def normaliseChar (c : Char) : Char :=
  let n := c.toNat
  if (0x2010 ≤ n && n ≤ 0x2015) || n == 0x2212 then '-'
  else if 0x2018 ≤ n && n ≤ 0x201B then Char.ofNat 0x27
  else if 0x201C ≤ n && n ≤ 0x201F then Char.ofNat 0x22
  else if n == 0xA0 || (0x2002 ≤ n && n ≤ 0x200A) || n == 0x202F || n == 0x205F || n == 0x3000 then
    ' '
  else c

def normalise (text : Text) : Text := (trim text).map normaliseChar

/-- The first position at which the lines agree with the pattern up to `view`. -/
def seekBy (view : Text → Text) (lines pattern : List Text) (searchStart lastStart : ℕ) : Option ℕ :=
  (List.range' searchStart (lastStart + 1 - searchStart)).find? fun i =>
    ((lines.drop i).take pattern.length).map view == pattern.map view

def seekSequence (lines pattern : List Text) (start : ℕ) (eof : Bool)
    (updateFileMode : ApplyPatchFileUpdateMode) : Option ℕ :=
  if pattern.isEmpty then some start
  else if lines.length < pattern.length then none
  else
    let eofStart := lines.length - pattern.length
    let searchStart :=
      if eof then
        match updateFileMode with
        | .normalizeToLf => eofStart
        | .preserveLineEndings => max eofStart start
      else start
    -- with decreasing strictness
    seekBy id lines pattern searchStart eofStart <|>
      seekBy trimEnd lines pattern searchStart eofStart <|>
      seekBy trim lines pattern searchStart eofStart <|>
      seekBy normalise lines pattern searchStart eofStart

variable (originalLines : List Text)

def insertionIndex : ApplyPatchFileUpdateMode → ℕ
  | .normalizeToLf =>
    if originalLines.getLast? = some [] then originalLines.length - 1 else originalLines.length
  | .preserveLineEndings => originalLines.length

/-- What is left of a chunk behind its last context line. -/
def restReplacement (startIndex : ℕ) (pattern newSlice : List Text) (oldStart newStart : ℕ) :
    List Replacement :=
  if oldStart != pattern.length || newStart != newSlice.length then
    [(startIndex + oldStart, pattern.length - oldStart, newSlice.drop newStart)]
  else []

/-- The ranges between the context lines of a chunk, which themselves stay in place. A context line
that stood for the final line feed is not in the pattern any more. -/
def contextReplacements (startIndex : ℕ) (pattern newSlice : List Text) :
    ℕ → ℕ → List (ℕ × ℕ) → List Replacement
  | oldStart, newStart, [] => restReplacement startIndex pattern newSlice oldStart newStart
  | oldStart, newStart, (oldContext, newContext) :: indices =>
    if pattern.length ≤ oldContext || newSlice.length ≤ newContext then
      restReplacement startIndex pattern newSlice oldStart newStart
    else
      (if oldStart != oldContext || newStart != newContext then
        [(startIndex + oldStart, oldContext - oldStart, (newSlice.take newContext).drop newStart)]
      else []) ++
        contextReplacements startIndex pattern newSlice (oldContext + 1) (newContext + 1) indices

/-- The position of the old lines with the lines as they were sought and those that replace them. A
pattern that is not found is tried again without an empty last line. -/
def seekOldLines (lineIndex : ℕ) (chunk : UpdateFileChunk)
    (updateFileMode : ApplyPatchFileUpdateMode) : Option (ℕ × List Text × List Text) :=
  match seekSequence originalLines chunk.oldLines lineIndex chunk.isEndOfFile updateFileMode with
  | some startIndex => some (startIndex, chunk.oldLines, chunk.newLines)
  | none =>
    if chunk.oldLines.getLast? = some [] then
      let pattern := chunk.oldLines.dropLast
      let newSlice := if chunk.newLines.getLast? = some [] then chunk.newLines.dropLast
        else chunk.newLines
      (seekSequence originalLines pattern lineIndex chunk.isEndOfFile updateFileMode).map
        (·, pattern, newSlice)
    else none

def chunkReplacements (path : Text)
    (updateFileMode : ApplyPatchFileUpdateMode) (lineIndex : ℕ) (chunk : UpdateFileChunk) :
    Except UpdateError (ℕ × List Replacement) := do
  let lineIndex ← match chunk.changeContext with
    | none => pure lineIndex
    | some contextLine =>
      match seekSequence originalLines [contextLine] lineIndex false updateFileMode with
      | some index => pure (index + 1)
      | none => throw (.computeReplacements
          ("Failed to find context '".toList ++ contextLine ++ "' in ".toList ++ path))
  if chunk.oldLines.isEmpty then
    return (lineIndex, [(insertionIndex originalLines updateFileMode, 0, chunk.newLines)])
  match seekOldLines originalLines lineIndex chunk updateFileMode with
  | none => throw (.computeReplacements ("Failed to find expected lines in ".toList ++ path ++
      ":\n".toList ++ ['\n'].intercalate chunk.oldLines))
  | some (startIndex, pattern, newSlice) =>
    let replacements := match updateFileMode with
      | .normalizeToLf => [(startIndex, pattern.length, newSlice)]
      | .preserveLineEndings =>
        contextReplacements startIndex pattern newSlice 0 0 chunk.contextLineIndices
    return (startIndex + pattern.length, replacements)

def collectReplacements (originalLines : List Text) (path : Text)
    (updateFileMode : ApplyPatchFileUpdateMode) :
    ℕ → List UpdateFileChunk → Except UpdateError (List Replacement)
  | _, [] => return []
  | lineIndex, chunk :: chunks => do
    let (lineIndex, replacements) ←
      chunkReplacements originalLines path updateFileMode lineIndex chunk
    return replacements ++ (← collectReplacements originalLines path updateFileMode lineIndex chunks)

def computeReplacements (path : Text) (chunks : List UpdateFileChunk)
    (updateFileMode : ApplyPatchFileUpdateMode) : Except UpdateError (List Replacement) := do
  let replacements ← collectReplacements originalLines path updateFileMode 0 chunks
  return replacements.insertionSort (·.1 ≤ ·.1)

def applyReplacement (lines : List Text) : Replacement → Except UpdateError (List Text)
  | (startIndex, oldLength, newSegment) =>
    if lines.length < startIndex && !newSegment.isEmpty then throw .panic
    else return lines.take startIndex ++ newSegment ++ lines.drop (startIndex + oldLength)

/-- From the last replacement to the first one, so that none shifts the position of another. -/
def applyReplacements (lines : List Text) (replacements : List Replacement) :
    Except UpdateError (List Text) :=
  replacements.reverse.foldlM applyReplacement lines

inductive LineEnding
  | lf
  | crLf
  | cr

def LineEnding.asStr : LineEnding → Text
  | lf => ['\n']
  | crLf => ['\r', '\n']
  | cr => ['\r']

structure SourceLine where
  text : Text
  ending : Option LineEnding

structure SourceFile where
  lines : List SourceLine
  preferredEnding : LineEnding

namespace SourceFile

/-- The lines of the remaining contents; `text` is what has been read of the first one. -/
def parseLines (text : Text) : Text → List SourceLine
  | [] => if text.isEmpty then [] else [⟨text, none⟩]
  | '\r' :: '\n' :: rest => ⟨text, some .crLf⟩ :: parseLines [] rest
  | '\r' :: rest => ⟨text, some .cr⟩ :: parseLines [] rest
  | '\n' :: rest => ⟨text, some .lf⟩ :: parseLines [] rest
  | c :: rest => parseLines (text ++ [c]) rest

def parse (contents : Text) : SourceFile :=
  let lines := parseLines [] contents
  ⟨lines, (lines.findSome? (·.ending)).getD .lf⟩

def lineTexts (file : SourceFile) : List Text := file.lines.map (·.text)

/-- The lines from `sourceIndex` on with the replacements that start there or later. -/
def rebuild (preferredEnding : LineEnding) :
    ℕ → List SourceLine → List Replacement → Except UpdateError (List SourceLine)
  | _, sourceLines, [] => return sourceLines
  | sourceIndex, sourceLines, (startIndex, oldLength, newSegment) :: replacements =>
    if startIndex < sourceIndex then throw .panic
    else do
      let rest ← rebuild preferredEnding (startIndex + oldLength)
        (sourceLines.drop (startIndex - sourceIndex + oldLength)) replacements
      return sourceLines.take (startIndex - sourceIndex) ++
        newSegment.map (⟨·, some preferredEnding⟩) ++ rest

/-- Every line of the result has an ending. -/
def applyReplacements (file : SourceFile) (replacements : List Replacement) :
    Except UpdateError SourceFile := do
  let lines ← rebuild file.preferredEnding 0 file.lines replacements
  return { file with
    lines := lines.map fun line => { line with ending := line.ending.or (some file.preferredEnding) } }

def intoContents (file : SourceFile) : Text :=
  file.lines.flatMap fun line => line.text ++ (line.ending.map (·.asStr)).getD []

end SourceFile

def splitLines (contents : Text) : List Text :=
  let lines := contents.splitOn '\n'
  if lines.getLast? = some [] then lines.dropLast else lines

def joinLines (lines : List Text) : Text :=
  ['\n'].intercalate (if lines.getLast? = some [] then lines else lines ++ [[]])

/-- `derive_new_contents_from_chunks` behind its read; `path` is the file's name in messages. -/
def deriveNewContents (path : Text) (chunks : List UpdateFileChunk)
    (updateFileMode : ApplyPatchFileUpdateMode) (originalContents : Text) :
    Except UpdateError Text :=
  match updateFileMode with
  | .normalizeToLf => do
    let originalLines := splitLines originalContents
    let replacements ← computeReplacements originalLines path chunks updateFileMode
    return joinLines (← applyReplacements originalLines replacements)
  | .preserveLineEndings => do
    let sourceFile := SourceFile.parse originalContents
    let replacements ← computeReplacements sourceFile.lineTexts path chunks updateFileMode
    return (← sourceFile.applyReplacements replacements).intoContents

end Slopdex.Patch
