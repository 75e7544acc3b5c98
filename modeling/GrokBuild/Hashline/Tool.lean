import Mathlib.Logic.Function.Basic
import GrokBuild.Hashline.Edit
import GrokBuild.Lib.Utf8

/-!
# Hashline: the edit tool

`HashlineEditTool::run` of `grok_build_hashline/edit/mod.rs` over the local
file system (`computer/local/file_system.rs`), with the scheme parameters of
`config.rs`. The system calls of one run, with the faults they meet, are the
`Host`.

An error is meant to say that nothing was done. A file that is there is
written after the batch was validated; a missing one is created first.
-/

namespace GrokBuild.Hashline

open TextLines Str LineLog

/-! ## Texts from bytes -/

/-- How many bytes follow a first byte in its character, and the range of the
first of them. -/
def continuation (b : UInt8) : Nat × UInt8 × UInt8 :=
  if 0xC2 ≤ b ∧ b ≤ 0xDF then (1, 0x80, 0xBF)
  else if b = 0xE0 then (2, 0xA0, 0xBF)
  else if b = 0xED then (2, 0x80, 0x9F)
  else if 0xE1 ≤ b ∧ b ≤ 0xEF then (2, 0x80, 0xBF)
  else if b = 0xF0 then (3, 0x90, 0xBF)
  else if b = 0xF4 then (3, 0x80, 0x8F)
  else if 0xF1 ≤ b ∧ b ≤ 0xF3 then (3, 0x80, 0xBF)
  else (0, 0x80, 0xBF)

/-- How many of the bytes behind `b` go on with its character. -/
def continued (b : UInt8) : Bytes → Nat
  | [] => 0
  | c :: rest =>
    let (n, lo, hi) := continuation b
    if n = 0 ∨ c < lo ∨ hi < c then 0
    else 1 + ((rest.take (n - 1)).takeWhile fun d => 0x80 ≤ d && d ≤ 0xBF).length

/-- The loop of `from_utf8_lossy`, for at most so many characters: bytes that
begin a character and do not end it give one replacement character. -/
def lossyFrom : Nat → Bytes → Text
  | 0, _ => []
  | _, [] => []
  | n + 1, b :: rest =>
    let k := continued b rest
    (decodeUtf8 (b :: rest.take k)).getD ['\uFFFD'] ++ lossyFrom n (rest.drop k)

def fromUtf8Lossy (bytes : Bytes) : Text := lossyFrom bytes.length bytes

/-! ## Parameters (`config.rs`) -/

structure HashlineSchemeParams where
  scheme : Text := "chunk".toList
  hashLen : Nat := 3
  chunkSize : Nat := 8

/-- `build_scheme`, with the checks of `validate`. -/
def HashlineSchemeParams.buildScheme (p : HashlineSchemeParams) : Except Text AnchorScheme :=
  if p.scheme ≠ "chunk".toList ∧ p.scheme ≠ "content_only".toList then
    .error ("unknown scheme \"".toList ++ p.scheme ++
      "\": expected \"chunk\" or \"content_only\"".toList)
  else if hlen : 0 < p.hashLen ∧ p.hashLen ≤ 4 then
    if p.scheme = "content_only".toList then .ok (.contentOnly ⟨⟨p.hashLen, hlen⟩⟩)
    else if hsize : 0 < p.chunkSize then .ok (.chunk ⟨⟨p.hashLen, hlen⟩, ⟨p.chunkSize, hsize⟩⟩)
    else .error "chunk_size must be > 0".toList
  else .error ("hash_len must be 1..=4, got ".toList ++ decimal p.hashLen)

/-! ## Files (`file_system.rs`) -/

abbrev Path := Text

inductive ErrorKind where
  | notFound
  | other
  deriving DecidableEq, Repr

/-- `ComputerError::IOError`, the only error of the local file system. -/
structure IoError where
  message : Text
  kind : ErrorKind
  deriving DecidableEq, Repr

/-- How `fs::write` fails: the file cannot be opened, or it is open, and
thereby empty, and some of the bytes have been written. -/
inductive WriteFault where
  | opening (e : IoError)
  | writing (written : Nat) (e : IoError)
  deriving DecidableEq, Repr

/-- What the system answers to one run. `F` are the files, whatever paths
lead to them. -/
structure Host (F : Type) where
  /-- `resolve_model_path`, which knows the home directory. -/
  resolveModelPath : Path → Option Path → Text → Path
  /-- `try_canonicalize`. -/
  tryCanonicalize : Path → Option Path
  /-- `try_resolve_unicode_filename`. -/
  tryResolveUnicodeFilename : Path → Option Path
  /-- `canonicalize_with_timeout`, once the file was written. -/
  canonicalizeWithTimeout : Path → Path
  /-- `path_not_found_hint`. -/
  pathNotFoundHint : Path → Path → Path → Text
  /-- The file that opening a path leads to. -/
  opens : Path → F
  readFault : Option IoError
  createDirFault : Option IoError
  writeFault : Option WriteFault

abbrev Files (F : Type) := F → Option Bytes

variable {F : Type} [DecidableEq F]

def notFoundError : IoError :=
  { message := "No such file or directory (os error 2)".toList, kind := .notFound }

def readFile (host : Host F) (files : Files F) (path : Path) : Except IoError Bytes :=
  match host.readFault with
  | some e => .error e
  | none =>
    match files (host.opens path) with
    | some bytes => .ok bytes
    | none => .error notFoundError

/-- `LocalFs::write_file`: the directories above are made first. -/
def writeFile (host : Host F) (path : Path) (data : Bytes) (files : Files F) :
    Except IoError Unit × Files F :=
  match host.createDirFault with
  | some e => (.error e, files)
  | none =>
    match host.writeFault with
    | some (.opening e) => (.error e, files)
    | some (.writing n e) =>
      (.error e, Function.update files (host.opens path) (some (data.take n)))
    | none => (.ok (), Function.update files (host.opens path) (some data))

/-! ## Output -/

structure SearchReplaceEditDetail where
  oldString : Text
  oldLine : Nat
  newString : Text
  newLine : Nat
  contextBefore : Text
  contextAfter : Text
  linePrefix : Text
  deriving DecidableEq, Repr

structure SearchReplaceEditsApplied where
  oldString : Text
  newString : Text
  toolOutputForPrompt : Text
  toolOutputForPromptConcise : Option Text := none
  absolutePath : Path
  edits : List SearchReplaceEditDetail
  patch : Option Text := none
  unicodeNormalized : Bool := false
  deriving DecidableEq, Repr

structure NoMatchesFoundError where
  message : Text
  filePath : Path
  fileSnapshotAtEdit : Option Text := none
  deriving DecidableEq, Repr

inductive SearchReplaceOutput where
  | fileAlreadyExists (message : Text)
  | editsApplied (applied : SearchReplaceEditsApplied)
  | multipleMatchesFound (message : Text)
  | noMatchesFound (e : NoMatchesFoundError)
  | invalidInput (message : Text)
  | fileNotFound (message : Text)
  | filenameTooLong (message : Text)
  deriving DecidableEq, Repr

/-- The lines with a newline behind the last one, or nothing. -/
def contextLines (ls : List Text) : Text := if ls = [] then [] else joinLines ls ++ ['\n']

/-- The detail of one operation, with up to three lines of the old file on
either side. -/
def editDetail (oldLines : List Text) (d : EditRegionDetail) : SearchReplaceEditDetail :=
  let oldIdx := d.oldLine - 1
  let oldTextLineCount := if d.oldText = [] then 0 else (d.oldText.splitOn '\n').length
  let afterStart := oldIdx + oldTextLineCount
  { oldString := d.oldText
    oldLine := d.oldLine
    newString := d.newText
    newLine := d.newLine
    contextBefore := contextLines (slice oldLines (oldIdx - 3) oldIdx)
    contextAfter := contextLines (slice oldLines afterStart (afterStart + 3))
    linePrefix := [] }

/-- The message of an error with all that it suggests. -/
def errorMessage (err : HashlineEditError) : Text :=
  let context := match err.context with
    | none => []
    | some ctx =>
      let label := match err.contextStartLine with
        | some start => "Fresh anchors around line ".toList ++ decimal start ++
            " — use these to retry your edit:".toList
        | none => "Fresh anchors — use these to retry your edit:".toList
      "\n\n".toList ++ label ++ '\n' :: ctx
  let suggestion := match err.shiftedAnchor with
    | none => []
    | some anchor => "\n\nSuggested anchor: ".toList ++ anchor
  err.message ++ context ++ suggestion

def toSearchReplace (result : HashlineEditOutput) (filePath : Path) (oldContent : Text)
    (newContent : Option Text) (editDetails : List EditRegionDetail) : SearchReplaceOutput :=
  match result with
  | .editsApplied applied =>
    let newText := newContent.getD []
    let details :=
      -- a whole file was written
      if editDetails = [] then
        [{ oldString := oldContent, oldLine := 1, newString := newText, newLine := 1
           contextBefore := [], contextAfter := [], linePrefix := [] }]
      else editDetails.map (editDetail (oldContent.splitOn '\n'))
    .editsApplied
      { oldString := oldContent
        newString := newText
        toolOutputForPrompt :=
          if applied.warnings = [] then applied.snippet
          else joinLines applied.warnings ++ "\n\n".toList ++ applied.snippet
        absolutePath := applied.absolutePath
        edits := details }
  | .error err =>
    match err.error with
    | .fileNotFound => .fileNotFound (errorMessage err)
    | .invalidInput => .invalidInput (errorMessage err)
    | _ => .noMatchesFound { message := errorMessage err, filePath }

/-! ## A run -/

structure HashlineEditInput where
  filePath : Text
  edits : List HashlineOp

/-- What the tool may find in its context. -/
structure Resources where
  /-- The working directory of the runtime's own context. -/
  contextCwd : Option Path
  cwd : Option Path
  displayCwd : Option Path
  params : Option HashlineSchemeParams
  fileSystem : Bool
  pathNotFoundHints : Option Bool

inductive ToolError where
  | custom (code detail : Text)
  | invalidArguments (detail : Text)
  deriving DecidableEq, Repr

def missingResource (name : Text) : ToolError :=
  .custom "missing_resource".toList ("missing required resource: ".toList ++ name)

/-- What `run` takes out of the resources. -/
structure Setting where
  cwd : Path
  displayCwd : Option Path
  scheme : AnchorScheme
  hintsEnabled : Bool

def Resources.setting (res : Resources) : Except ToolError Setting :=
  match res.contextCwd.or res.cwd with
  | none => .error (missingResource "Cwd".toList)
  | some cwd =>
    if res.fileSystem then
      match (res.params.getD {}).buildScheme with
      | .error detail => .error (.invalidArguments detail)
      | .ok scheme => .ok
        { cwd, displayCwd := res.displayCwd, scheme
          hintsEnabled := res.pathNotFoundHints.getD false }
    else .error (missingResource "FileSystem".toList)

/-- `Path::join`. -/
def joinPath (base p : Path) : Path :=
  if p.head? = some '/' then p
  else if base = [] ∨ base.getLast? = some '/' then base ++ p
  else base ++ '/' :: p

/-- `HashlineEditTool::file_not_found`, of the path as the model knows it. -/
def fileNotFound (host : Host F) (st : Setting) (filePath : Text) (resolved : Path) :
    SearchReplaceOutput :=
  let displayCwd := st.displayCwd.getD st.cwd
  let base := "Error: ".toList ++ joinPath displayCwd filePath ++ " does not exist.".toList
  .fileNotFound
    (if st.hintsEnabled then base ++ host.pathNotFoundHint resolved st.cwd displayCwd else base)

/-- The answer to a failed system call. -/
def ioFailure (host : Host F) (st : Setting) (filePath : Text) (resolved : Path) (what : Text)
    (e : IoError) : SearchReplaceOutput :=
  match e.kind with
  | .notFound => fileNotFound host st filePath resolved
  | .other => .invalidInput (what ++ ": IO Error: ".toList ++ e.message)

/-- A `Write` to a path where there is no file. -/
def createFile (host : Host F) (st : Setting) (input : HashlineEditInput) (joined : Path)
    (content : Text) (files : Files F) : SearchReplaceOutput × Files F :=
  match writeFile host joined (utf8Bytes content) files with
  | (.error e, files) =>
    (ioFailure host st input.filePath joined "Failed to write file".toList e, files)
  | (.ok (), files) =>
    let abs := host.canonicalizeWithTimeout joined
    let r := applyEdits content input.edits abs st.scheme
    (toSearchReplace r.output abs [] r.newContent r.editDetails, files)

def writeFailure (e : IoError) : HashlineEditError :=
  { error := .ioError
    message := "Edits validated but failed to write file: IO Error: ".toList ++ e.message ++
      ".".toList }

/-- The batch on a file that is there. -/
def editFile (host : Host F) (st : Setting) (input : HashlineEditInput) (path : Path)
    (files : Files F) : SearchReplaceOutput × Files F :=
  match readFile host files path with
  | .error e => (ioFailure host st input.filePath path "Failed to read file".toList e, files)
  | .ok fileBytes =>
    let oldContent := fromUtf8Lossy fileBytes
    let r := applyEdits oldContent input.edits path st.scheme
    match r.newContent with
    | none => (toSearchReplace r.output path oldContent r.newContent r.editDetails, files)
    | some newContent =>
      match writeFile host path (utf8Bytes newContent) files with
      | (.error e, files) =>
        (toSearchReplace (.error (writeFailure e)) path oldContent none [], files)
      | (.ok (), files) =>
        (toSearchReplace r.output path oldContent r.newContent r.editDetails, files)

/-- The path of a file that is there, for the path that was asked for. -/
def existing (host : Host F) (joined : Path) : Option Path :=
  match host.tryCanonicalize joined with
  | some path => some path
  | none => host.tryResolveUnicodeFilename joined

def runAt (host : Host F) (st : Setting) (input : HashlineEditInput) (files : Files F) :
    SearchReplaceOutput × Files F :=
  let joined := host.resolveModelPath st.cwd st.displayCwd input.filePath
  match existing host joined with
  | some path => editFile host st input path files
  | none =>
    match input.edits with
    | [.write content] => createFile host st input joined content files
    | _ => (fileNotFound host st input.filePath joined, files)

/-- `HashlineEditTool::run`, with the files before and after. -/
def run (host : Host F) (resources : Option Resources) (input : HashlineEditInput)
    (files : Files F) : Except ToolError SearchReplaceOutput × Files F :=
  match resources with
  | none =>
    (.error (.custom "missing_resources".toList
      "SharedResources not available in ToolCallContext extensions".toList), files)
  | some res =>
    if input.edits = [] then (.ok (.invalidInput "No edit operations provided.".toList), files)
    else
      match res.setting with
      | .error e => (.error e, files)
      | .ok st =>
        let (output, files) := runAt host st input files
        (.ok output, files)

/-! ## What an error leaves -/

/-- The caller is told that something went wrong. -/
def Refused (answer : Except ToolError SearchReplaceOutput) : Prop :=
  ∀ applied, answer ≠ .ok (.editsApplied applied)

/-- The system breaks a write off, and what is then in the file is not what
was there. -/
def BreaksOff (host : Host F) (path : Path) (data : Bytes) (files : Files F) : Prop :=
  host.createDirFault = none ∧
    ∃ n e, host.writeFault = some (.writing n e) ∧ files (host.opens path) ≠ some (data.take n)

/-- The write goes through, and the file was not like this before. -/
def Overwrites (host : Host F) (path : Path) (data : Bytes) (files : Files F) : Prop :=
  host.createDirFault = none ∧ host.writeFault = none ∧ files (host.opens path) ≠ some data

variable {files : Files F}

theorem update_eq_self {f : F} {bytes : Option Bytes} :
    Function.update files f bytes = files ↔ files f = bytes := by
  rw [Function.update_eq_self_iff]
  exact eq_comm

variable {host : Host F} {path : Path} {data : Bytes} {files' : Files F}

theorem writeFile_error {e : IoError} (h : writeFile host path data files = (.error e, files')) :
    files' = files ↔ ¬ BreaksOff host path data files := by
  unfold writeFile at h
  cases hdir : host.createDirFault with
  | some e =>
    simp only [hdir, Prod.mk.injEq] at h
    simp [BreaksOff, hdir, h.2]
  | none =>
    cases hwrite : host.writeFault with
    | none => simp [hdir, hwrite] at h
    | some fault =>
      cases fault with
      | opening e =>
        simp only [hdir, hwrite, Prod.mk.injEq] at h
        simp [BreaksOff, hdir, hwrite, h.2]
      | writing n e =>
        simp only [hdir, hwrite, Prod.mk.injEq] at h
        rw [← h.2, update_eq_self]
        simp [BreaksOff, hdir, hwrite]

theorem writeFile_ok (h : writeFile host path data files = (.ok (), files')) :
    (files' = files ↔ ¬ Overwrites host path data files) ∧ ¬ BreaksOff host path data files := by
  unfold writeFile at h
  cases hdir : host.createDirFault with
  | some e => simp [hdir] at h
  | none =>
    cases hwrite : host.writeFault with
    | some fault => cases fault <;> simp [hdir, hwrite] at h
    | none =>
      simp only [hdir, hwrite, Prod.mk.injEq, true_and] at h
      rw [← h, update_eq_self]
      simp [Overwrites, BreaksOff, hdir, hwrite]

theorem not_overwrites_of_error {e : IoError}
    (h : writeFile host path data files = (.error e, files')) : ¬ Overwrites host path data files := by
  rintro ⟨hdir, hwrite, -⟩
  simp [writeFile, hdir, hwrite] at h

theorem applyEdits_output (content : Text) (ops : List HashlineOp) (filePath : Path)
    (scheme : AnchorScheme) :
    (∃ e, applyEdits content ops filePath scheme = failure e) ∨
      ∃ applied new details, applyEdits content ops filePath scheme =
        { output := .editsApplied applied, newContent := some new, editDetails := details } := by
  unfold applyEdits
  split
  · split
    · exact .inl ⟨_, rfl⟩
    · exact .inr ⟨_, _, _, rfl⟩
  · dsimp only
    split
    · exact .inl ⟨_, rfl⟩
    · split
      · exact .inl ⟨_, rfl⟩
      · exact .inr ⟨_, _, _, rfl⟩

theorem toSearchReplace_error (e : HashlineEditError) (filePath : Path) (old : Text)
    (new : Option Text) (details : List EditRegionDetail) (applied : SearchReplaceEditsApplied) :
    toSearchReplace (.error e) filePath old new details ≠ .editsApplied applied := by
  intro h
  unfold toSearchReplace at h
  split at h
  · cases ‹HashlineEditOutput.error e = _›
  · split at h <;> cases h

omit [DecidableEq F] in
theorem ioFailure_ne (host : Host F) (st : Setting) (filePath : Text) (resolved : Path)
    (what : Text) (e : IoError) (applied : SearchReplaceEditsApplied) :
    ioFailure host st filePath resolved what e ≠ .editsApplied applied := by
  intro h
  unfold ioFailure at h
  split at h <;> cases h

/-- An existing file is changed behind an error only by a write that was
broken off: the batch was validated before. -/
theorem editFile_leaves (host : Host F) (st : Setting) (input : HashlineEditInput) (path : Path)
    (files : Files F) :
    ((∀ applied, (editFile host st input path files).1 ≠ .editsApplied applied) →
        (editFile host st input path files).2 = files) ↔
      ¬ ∃ bytes new, readFile host files path = .ok bytes ∧
        (applyEdits (fromUtf8Lossy bytes) input.edits path st.scheme).newContent = some new ∧
        BreaksOff host path (utf8Bytes new) files := by
  unfold editFile
  cases hread : readFile host files path with
  | error e => simp
  | ok bytes =>
    obtain ⟨e, happly⟩ | ⟨applied, new, details, happly⟩ :=
      applyEdits_output (fromUtf8Lossy bytes) input.edits path st.scheme
    · simp [happly, failure]
    · simp only [happly, Except.ok.injEq, Option.some.injEq, exists_eq_left', exists_and_left]
      rcases hw : writeFile host path (utf8Bytes new) files with ⟨result, files'⟩
      cases result with
      | error e =>
        have hrefused := toSearchReplace_error (writeFailure e) path (fromUtf8Lossy bytes) none []
        rw [← writeFile_error hw]
        exact ⟨fun h => h hrefused, fun h _ => h⟩
      | ok u =>
        have hkept := (writeFile_ok hw).2
        exact ⟨fun _ => hkept, fun _ h => absurd rfl (h _)⟩

theorem createFile_leaves (host : Host F) (st : Setting) {input : HashlineEditInput}
    (joined : Path) {content : Text} (hedits : input.edits = [.write content]) (files : Files F) :
    ((∀ applied, (createFile host st input joined content files).1 ≠ .editsApplied applied) →
        (createFile host st input joined content files).2 = files) ↔
      ¬ (BreaksOff host joined (utf8Bytes content) files ∨
        (detectAnchorPrefixInContent content).isSome ∧
          Overwrites host joined (utf8Bytes content) files) := by
  unfold createFile
  rcases hw : writeFile host joined (utf8Bytes content) files with ⟨result, files'⟩
  cases result with
  | error e =>
    have hthrough := not_overwrites_of_error hw
    have hrefused := ioFailure_ne host st input.filePath joined "Failed to write file".toList e
    simp only [hthrough, and_false, or_false]
    rw [← writeFile_error hw]
    exact ⟨fun h => h hrefused, fun h _ => h⟩
  | ok u =>
    obtain ⟨hsame, hwhole⟩ := writeFile_ok hw
    simp only [hwhole, false_or]
    cases hdetect : detectAnchorPrefixInContent content with
    | none =>
      simp [hedits, applyEdits, hdetect, buildWriteResult, toSearchReplace]
    | some lineNum =>
      have hrefused := toSearchReplace_error (anchorContentError "write".toList content lineNum)
        (host.canonicalizeWithTimeout joined) [] none []
      simp only [hedits, applyEdits, hdetect, failure, Option.isSome_some, true_and]
      rw [← hsame]
      exact ⟨fun h => h hrefused, fun h _ => h⟩

/-- What a call leaves changed behind an error. -/
def Spoils (host : Host F) (st : Setting) (input : HashlineEditInput) (files : Files F) : Prop :=
  let joined := host.resolveModelPath st.cwd st.displayCwd input.filePath
  match existing host joined with
  | some path => ∃ bytes new, readFile host files path = .ok bytes ∧
      (applyEdits (fromUtf8Lossy bytes) input.edits path st.scheme).newContent = some new ∧
      BreaksOff host path (utf8Bytes new) files
  | none => ∃ content, input.edits = [.write content] ∧
      (BreaksOff host joined (utf8Bytes content) files ∨
        (detectAnchorPrefixInContent content).isSome ∧
          Overwrites host joined (utf8Bytes content) files)

theorem runAt_leaves (host : Host F) (st : Setting) (input : HashlineEditInput)
    (files : Files F) :
    ((∀ applied, (runAt host st input files).1 ≠ .editsApplied applied) →
        (runAt host st input files).2 = files) ↔ ¬ Spoils host st input files := by
  unfold runAt Spoils
  dsimp only
  split
  · exact editFile_leaves host st input _ files
  · split
    · next content hedits =>
      rw [createFile_leaves host st _ hedits files]
      simp [hedits]
    · next hedits =>
      have hnone : ∀ content, input.edits ≠ [.write content] := fun content h => hedits content h
      simp [hnone]

/-- An error leaves the files as they were, unless the call was about a new
file whose content is refused, or the system broke a write off. -/
theorem run_leaves_iff (host : Host F) (resources : Option Resources)
    (input : HashlineEditInput) (files : Files F) :
    (Refused (run host resources input files).1 → (run host resources input files).2 = files) ↔
      ¬ ∃ res st, resources = some res ∧ input.edits ≠ [] ∧ res.setting = .ok st ∧
        Spoils host st input files := by
  unfold run
  cases resources with
  | none => simp
  | some res =>
    by_cases hedits : input.edits = []
    · simp [hedits]
    · cases hst : res.setting with
      | error e => simp [hedits, hst]
      | ok st =>
        have hrun := runAt_leaves host st input files
        simpa [hedits, hst, Refused] using hrun

/-! ## A refused new file -/

/-- There are no files, and nothing fails. -/
def emptyHost : Host Path where
  resolveModelPath := fun cwd _ p => joinPath cwd p
  tryCanonicalize := fun _ => none
  tryResolveUnicodeFilename := fun _ => none
  canonicalizeWithTimeout := id
  pathNotFoundHint := fun _ _ _ => []
  opens := id
  readFault := none
  createDirFault := none
  writeFault := none

def plainResources : Resources where
  contextCwd := none
  cwd := some "/w".toList
  displayCwd := none
  params := none
  fileSystem := true
  pathNotFoundHints := none

/-- A line as `hashline_read` shows it. -/
def copiedLine : HashlineEditInput where
  filePath := ['a']
  edits := [.write "2:ab→x".toList]

theorem run_creates_refused :
    ¬ ∀ (host : Host Path) (resources : Option Resources) (input : HashlineEditInput)
      (files : Files Path), Refused (run host resources input files).1 →
        (run host resources input files).2 = files := by
  intro h
  have hsome : (run emptyHost (some plainResources) copiedLine fun _ => none).2 "/w/a".toList =
      some (utf8Bytes "2:ab→x".toList) := by decide
  rw [h emptyHost (some plainResources) copiedLine (fun _ => none) ?_] at hsome
  · cases hsome
  · intro applied happlied
    have hmsg : (run emptyHost (some plainResources) copiedLine fun _ => none).1.toOption.map
        (fun out => match out with | .invalidInput _ => true | _ => false) = some true := by decide
    rw [happlied] at hmsg
    cases hmsg

end GrokBuild.Hashline
