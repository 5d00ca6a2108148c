import Slopdex.Protocol.Types
import Slopdex.Library.Lines
import Mathlib.Data.List.ModifyLast

/-!
# The parser of patches

The streaming parser takes the text of a patch in pieces, cuts it into lines and keeps the hunks
that it has read so far. The batch parser checks the first and the last line, removes a heredoc
around the patch and feeds everything to the streaming parser. After an error the parser is not used
any more, so a failed step returns the error alone.
-/

namespace Slopdex.Patch

open Protocol (Text trim trimEnd)
open Library

/-- `str::strip_suffix` with a character. -/
def stripSuffix (c : Char) (text : Text) : Option Text :=
  if text.getLast? = some c then some text.dropLast else none

def stripLineEnding (piece : Text) : Text :=
  match stripSuffix '\n' piece with
  | none => piece
  | some line => (stripSuffix '\r' line).getD line

/-- `str::lines` -/
def lines (text : Text) : List Text := (Lines.splitInclusive '\n' text).map stripLineEnding

def beginPatchMarker : Text := "*** Begin Patch".toList
def endPatchMarker : Text := "*** End Patch".toList
def addFileMarker : Text := "*** Add File: ".toList
def deleteFileMarker : Text := "*** Delete File: ".toList
def updateFileMarker : Text := "*** Update File: ".toList
def moveToMarker : Text := "*** Move to: ".toList
def eofMarker : Text := "*** End of File".toList
def changeContextMarker : Text := "@@ ".toList
def emptyChangeContextMarker : Text := "@@".toList
def environmentIdMarker : Text := "*** Environment ID:".toList

inductive ParseError
  | invalidPatchError (message : Text)
  | invalidHunkError (message : Text) (lineNumber : ℕ)
  deriving DecidableEq

/-- `contextLineIndices` pairs the positions of a context line in `oldLines` and in `newLines`. -/
structure UpdateFileChunk where
  changeContext : Option Text := none
  oldLines : List Text := []
  newLines : List Text := []
  contextLineIndices : List (ℕ × ℕ) := []
  isEndOfFile : Bool := false
  deriving DecidableEq

namespace UpdateFileChunk

def pushContextLine (line : Text) (chunk : UpdateFileChunk) : UpdateFileChunk :=
  { chunk with
    contextLineIndices := chunk.contextLineIndices ++ [(chunk.oldLines.length, chunk.newLines.length)]
    oldLines := chunk.oldLines ++ [line]
    newLines := chunk.newLines ++ [line] }

def pushNewLine (line : Text) (chunk : UpdateFileChunk) : UpdateFileChunk :=
  { chunk with newLines := chunk.newLines ++ [line] }

def pushOldLine (line : Text) (chunk : UpdateFileChunk) : UpdateFileChunk :=
  { chunk with oldLines := chunk.oldLines ++ [line] }

def hasNoLines (chunk : UpdateFileChunk) : Bool := chunk.oldLines.isEmpty && chunk.newLines.isEmpty

end UpdateFileChunk

inductive Hunk
  | addFile (path contents : Text)
  | deleteFile (path : Text)
  | updateFile (path : Text) (movePath : Option Text) (chunks : List UpdateFileChunk)
  deriving DecidableEq

/-! ## The streaming parser -/

inductive StreamingParserMode
  | notStarted
  | startedPatch
  | addFile
  | deleteFile
  | updateFile (hunkLineNumber : ℕ)
  | endedPatch
  deriving DecidableEq

structure StreamingParserState where
  mode : StreamingParserMode := .notStarted
  hunks : List Hunk := []
  environmentId : Option Text := none

structure StreamingPatchParser where
  lineBuffer : Text := []
  state : StreamingParserState := {}
  lineNumber : ℕ := 0

def firstLineError : ParseError :=
  .invalidPatchError "The first line of the patch must be '*** Begin Patch'".toList

def lastLineError : ParseError :=
  .invalidPatchError "The last line of the patch must be '*** End Patch'".toList

def emptyChunkError (lineNumber : ℕ) : ParseError :=
  .invalidHunkError "Update hunk does not contain any lines".toList lineNumber

def unexpectedLineError (line : Text) (lineNumber : ℕ) : ParseError :=
  .invalidHunkError ("Unexpected line found in update hunk: '".toList ++ line ++
    "'. Every line should start with ' ' (context line), '+' (added line), or '-' (removed line)".toList)
    lineNumber

def contextMarkerError (line : Text) (lineNumber : ℕ) : ParseError :=
  .invalidHunkError
    ("Expected update hunk to start with a @@ context marker, got: '".toList ++ line ++ "'".toList)
    lineNumber

def hunkHeaderError (trimmed : Text) (lineNumber : ℕ) : ParseError :=
  .invalidHunkError ("'".toList ++ trimmed ++ ("' is not a valid hunk header. Valid hunk headers: " ++
    "'*** Add File: \x7bpath\x7d', '*** Delete File: \x7bpath\x7d', " ++
    "'*** Update File: \x7bpath\x7d'").toList) lineNumber

/-- The line is `@@`, or `@@` with a context behind it. -/
def isContextHeader (updateLine : Text) : Bool :=
  updateLine == emptyChangeContextMarker || changeContextMarker.isPrefixOf updateLine

def changeOfLine : Text → Option (UpdateFileChunk → UpdateFileChunk)
  | [] => some (.pushContextLine [])
  | ' ' :: line => some (.pushContextLine line)
  | '+' :: line => some (.pushNewLine line)
  | '-' :: line => some (.pushOldLine line)
  | _ => none

def processUpdateLine (lineNumber : ℕ) (line : Text) (movePath : Option Text)
    (chunks : List UpdateFileChunk) : Except ParseError (Option Text × List UpdateFileChunk) :=
  let updateLine := trimEnd line
  let lastChunk := chunks.getLast?
  if lastChunk.any (·.isEndOfFile) && updateLine.isEmpty then .ok (movePath, chunks)
  else if lastChunk.any (·.isEndOfFile) && !isContextHeader updateLine then
    .error (contextMarkerError line lineNumber)
  else
    match (if chunks.isEmpty && movePath.isNone then updateLine.dropPrefix? moveToMarker else none) with
    | some moveToPath => .ok (some moveToPath, chunks)
    | none =>
      if isContextHeader updateLine && lastChunk.any (·.hasNoLines) then
        .error (unexpectedLineError line lineNumber)
      else if updateLine == emptyChangeContextMarker then .ok (movePath, chunks ++ [{}])
      else
        match updateLine.dropPrefix? changeContextMarker with
        | some changeContext => .ok (movePath, chunks ++ [{ changeContext := some changeContext }])
        | none =>
          if updateLine == eofMarker then
            if lastChunk.any (·.hasNoLines) then .error (emptyChunkError lineNumber)
            else .ok (movePath, chunks.modifyLast ({ · with isEndOfFile := true }))
          else
            match changeOfLine line with
            | some change =>
              .ok (movePath, (if chunks.isEmpty then [{}] else chunks).modifyLast change)
            | none =>
              if lastChunk.any (!·.hasNoLines) then .error (contextMarkerError line lineNumber)
              else .error (unexpectedLineError line lineNumber)

namespace StreamingPatchParser

variable (parser : StreamingPatchParser)

def startHunk (hunk : Hunk) (mode : StreamingParserMode) : StreamingPatchParser :=
  { parser with state.hunks := parser.state.hunks ++ [hunk], state.mode := mode }

def setLastHunk (hunk : Hunk) : StreamingPatchParser :=
  { parser with state.hunks := parser.state.hunks.dropLast ++ [hunk] }

def ensureUpdateHunkIsNotEmpty (line : Text) : Except ParseError Unit :=
  match parser.state.hunks.getLast? with
  | some (.updateFile path _ chunks) =>
    match chunks.getLast? with
    | none =>
      match parser.state.mode with
      | .updateFile hunkLineNumber =>
        .error (.invalidHunkError
          ("Update file hunk for path '".toList ++ path ++ "' is empty".toList) hunkLineNumber)
      | _ => .ok ()
    | some chunk =>
      if chunk.hasNoLines then
        if line == endPatchMarker then .error (emptyChunkError parser.lineNumber)
        else .error (unexpectedLineError line parser.lineNumber)
      else .ok ()
  | _ => .ok ()

def handleHunkHeadersAndEndPatch (trimmed : Text) :
    Except ParseError (Option StreamingPatchParser) :=
  match (if parser.state.mode = .startedPatch then trimmed.dropPrefix? environmentIdMarker
    else none) with
  | some environmentId =>
    if parser.state.environmentId.isSome then
      .error (.invalidPatchError
        "apply_patch environment_id cannot be specified more than once".toList)
    else if (trim environmentId).isEmpty then
      .error (.invalidPatchError "apply_patch environment_id cannot be empty".toList)
    else .ok (some { parser with state.environmentId := some (trim environmentId) })
  | none =>
    if trimmed == endPatchMarker then do
      parser.ensureUpdateHunkIsNotEmpty trimmed
      return some { parser with state.mode := .endedPatch }
    else
      match trimmed.dropPrefix? addFileMarker with
      | some path => do
        parser.ensureUpdateHunkIsNotEmpty trimmed
        return some (parser.startHunk (.addFile path []) .addFile)
      | none =>
        match trimmed.dropPrefix? deleteFileMarker with
        | some path => do
          parser.ensureUpdateHunkIsNotEmpty trimmed
          return some (parser.startHunk (.deleteFile path) .deleteFile)
        | none =>
          match trimmed.dropPrefix? updateFileMarker with
          | some path => do
            parser.ensureUpdateHunkIsNotEmpty trimmed
            return some (parser.startHunk (.updateFile path none []) (.updateFile parser.lineNumber))
          | none => return none

/-- A line of a mode that has headers, with `body` for the lines that are none. -/
def headerOr (trimmed : Text)
    (body : Except ParseError StreamingPatchParser) : Except ParseError StreamingPatchParser := do
  match ← parser.handleHunkHeadersAndEndPatch trimmed with
  | some next => return next
  | none => body

def processLine (line : Text) : Except ParseError StreamingPatchParser :=
  let trimmed := trim line
  match parser.state.mode with
  | .notStarted =>
    if trimmed == beginPatchMarker then .ok { parser with state.mode := .startedPatch }
    else .error firstLineError
  | .startedPatch | .deleteFile =>
    parser.headerOr trimmed (.error (hunkHeaderError trimmed parser.lineNumber))
  | .addFile =>
    parser.headerOr trimmed <|
      match line, parser.state.hunks.getLast? with
      | '+' :: lineToAdd, some (.addFile path contents) =>
        .ok (parser.setLastHunk (.addFile path (contents ++ lineToAdd ++ ['\n'])))
      | _, _ => .error (hunkHeaderError trimmed parser.lineNumber)
  | .updateFile _ =>
    parser.headerOr (trimEnd line) <|
      match parser.state.hunks.getLast? with
      | some (.updateFile path movePath chunks) => do
        let (movePath, chunks) ← processUpdateLine parser.lineNumber line movePath chunks
        return parser.setLastHunk (.updateFile path movePath chunks)
      | _ => .error (unexpectedLineError line parser.lineNumber)
  | .endedPatch => if trimmed.isEmpty then .ok parser else .error lastLineError

def pushChar (ch : Char) : Except ParseError StreamingPatchParser :=
  if ch = '\n' then
    processLine { parser with lineBuffer := [], lineNumber := parser.lineNumber + 1 }
      ((stripSuffix '\r' parser.lineBuffer).getD parser.lineBuffer)
  else .ok { parser with lineBuffer := parser.lineBuffer ++ [ch] }

def pushDelta (delta : Text) : Except ParseError StreamingPatchParser :=
  delta.foldlM pushChar parser

/-- The line that is left in the buffer. -/
def flush : Except ParseError StreamingPatchParser :=
  if parser.lineBuffer.isEmpty then .ok parser
  else
    let line := parser.lineBuffer
    let parser := { parser with lineBuffer := [], lineNumber := parser.lineNumber + 1 }
    if trim line == endPatchMarker then do
      parser.ensureUpdateHunkIsNotEmpty (trim line)
      return { parser with state.mode := .endedPatch }
    else parser.processLine line

def finish : Except ParseError StreamingPatchParser := do
  let parser ← parser.flush
  if parser.state.mode = .endedPatch then return parser else .error lastLineError

end StreamingPatchParser

structure ApplyPatchArgs where
  patch : Text
  hunks : List Hunk
  (workdir environmentId : Option Text)
  deriving DecidableEq

inductive ParseMode
  | strict
  | lenient

def checkStartAndEndLinesStrict (firstLine lastLine : Option Text) : Except ParseError Unit :=
  match firstLine.map trim, lastLine.map trim with
  | some first, last =>
    if first == beginPatchMarker && last == some endPatchMarker then .ok ()
    else if first != beginPatchMarker then .error firstLineError
    else .error lastLineError
  | none, _ => .error lastLineError

def checkPatchBoundariesStrict (lines : List Text) : Except ParseError (List Text) := do
  checkStartAndEndLinesStrict lines.head? lines.getLast?
  return lines

/-- A patch that a model wrapped into a heredoc, as if a shell would read it, is taken out of it. -/
def checkPatchBoundariesLenient (originalLines : List Text) : Except ParseError (List Text) :=
  match checkPatchBoundariesStrict originalLines with
  | .ok lines => .ok lines
  | .error originalParseError =>
    match originalLines.head?, originalLines.getLast? with
    | some first, some last =>
      if (first == "<<EOF".toList || first == "<<'EOF'".toList || first == "<<\"EOF\"".toList) &&
          "EOF".toList.isSuffixOf last && 4 ≤ originalLines.length then
        checkPatchBoundariesStrict originalLines.tail.dropLast
      else .error originalParseError
    | _, _ => .error originalParseError

def parsePatchText (patch : Text) (mode : ParseMode) : Except ParseError ApplyPatchArgs := do
  let patchLines ← match mode with
    | .strict => checkPatchBoundariesStrict (lines (trim patch))
    | .lenient => checkPatchBoundariesLenient (lines (trim patch))
  let patch := ['\n'].intercalate patchLines
  let parser ← StreamingPatchParser.pushDelta {} patch
  let parser ← parser.finish
  return ⟨patch, parser.state.hunks, none, parser.state.environmentId⟩

/-- `PARSE_IN_STRICT_MODE` is off. -/
def parsePatch (patch : Text) : Except ParseError ApplyPatchArgs := parsePatchText patch .lenient

end Slopdex.Patch
