import GrokBuild.Lib.Assoc
import GrokBuild.Lib.Paging
import GrokBuild.Lib.Str
import Mathlib.Data.Char
import Mathlib.Data.List.DropRight
import Mathlib.Data.List.Lex
import Mathlib.Data.Prod.Lex
import Mathlib.Order.WithBot

/-!
# Session lists: merging the lanes

`merge.rs`: the sessions found on disk and those of the registry, each session
once, newest first, without repeated empty ones. The registry's entry of a
session wins and takes from the local one what the registry does not know.
-/

namespace GrokBuild.SessionList

open TextLines Str Paging

/-- A point in time, in nanoseconds, and the offset in which it is written.
Only the point counts when times are compared. -/
structure DateTime where
  utc : Int
  offset : Int
  deriving DecidableEq, Repr

/-- RFC 3339 texts: a time that was read is written as a text that reads as it. -/
structure Chrono where
  parseFromRfc3339 : Text → Option DateTime
  toRfc3339 : DateTime → Text
  parse_nil : parseFromRfc3339 [] = none
  parse_toRfc3339 : ∀ s t, parseFromRfc3339 s = some t → parseFromRfc3339 (toRfc3339 t) = some t

/-- The fields of a session's summary that a listing shows. -/
structure Summary where
  id : Text
  cwd : Text
  sessionSummary : Text
  generatedTitle : Option Text
  createdAt : DateTime
  updatedAt : DateTime
  numMessages : Nat
  currentModelId : Text
  lastActiveAt : Option DateTime
  headBranch : Option Text
  gitRootDir : Option Text
  gitRemotes : List Text
  worktreeLabel : Option Text
  sourceWorkspaceDir : Option Text
  sessionKind : Option Text
  deriving DecidableEq, Repr

def Summary.displayTitle (s : Summary) : Text :=
  match s.generatedTitle.map trim with
  | some title => if title = [] then s.sessionSummary else title
  | none => s.sessionSummary

/-- The fields of a registry record that `merge` reads. -/
structure SessionRecord where
  sessionId : Text
  summary : Text
  firstPrompt : Option Text
  modelId : Option Text
  createdAt : Text
  updatedAt : Text
  lastTurnNumber : Int
  cwd : Text
  repoRemoteUrl : Option Text
  hostname : Option Text
  lastActiveAt : Option Text
  deriving DecidableEq, Repr

structure MergedSession where
  sessionId : Text := []
  summary : Text := []
  firstPrompt : Option Text := none
  updatedAt : Text := []
  createdAt : Text := []
  cwd : Text := []
  hostname : Option Text := none
  source : Text := []
  modelId : Option Text := none
  numMessages : Nat := 0
  lastActiveAt : Option Text := none
  branch : Option Text := none
  repoName : Option Text := none
  worktreeLabel : Option Text := none
  gitRootDir : Option Text := none
  gitRemotes : List Text := []
  sourceWorkspaceDir : Option Text := none
  sessionKind : Option Text := none
  deriving DecidableEq, Repr

/-- What a merge asks others for: times, lower-case texts, the label of a
worktree and the normal form of a repository's URL. -/
structure MergeEnv where
  chrono : Chrono
  toLowercase : Text → Text
  lookupWorktreeLabel : Text → Option Text
  normalizeRepoUrl : Text → Option Text

/-- Extra headroom for the merge. The product is a machine integer's. -/
def overFetch (limit : Nat) : Nat := max (limit * 3 % 2 ^ 64) 100

def fileName (path : Text) : Option Text :=
  match ((path.splitOn '/').filter fun c => c ≠ [] ∧ c ≠ ['.']).getLast? with
  | some last => if last = ['.', '.'] then none else some last
  | none => none

/-- `str::replace` of `/./` by `/`. -/
def dropDots : Text → Text
  | '/' :: '.' :: '/' :: rest => '/' :: dropDots rest
  | c :: rest => c :: dropDots rest
  | [] => []

def normalizeCwd (cwd : Text) : Text :=
  let trimmed := cwd.rdropWhile (· = '/')
  if trimmed = [] then ['/'] else dropDots trimmed

section Merge

variable (env : MergeEnv)

def effectiveSortTime (s : MergedSession) : Option DateTime :=
  (s.lastActiveAt.bind env.chrono.parseFromRfc3339).or (env.chrono.parseFromRfc3339 s.updatedAt)

/-- A local session is searched in its summary, its id and its title. -/
def matchesQuery (query : Text) (s : Summary) : Bool :=
  let q := env.toLowercase query
  q <:+: env.toLowercase s.sessionSummary || q <:+: env.toLowercase s.id ||
    q <:+: env.toLowercase s.displayTitle

def ofSummary (s : Summary) : MergedSession where
  sessionId := s.id
  summary := s.displayTitle
  updatedAt := env.chrono.toRfc3339 s.updatedAt
  createdAt := env.chrono.toRfc3339 s.createdAt
  cwd := s.cwd
  source := "local".toList
  modelId := some s.currentModelId
  numMessages := s.numMessages
  lastActiveAt := s.lastActiveAt.map env.chrono.toRfc3339
  branch := s.headBranch
  repoName := s.gitRootDir.bind fileName
  worktreeLabel := s.worktreeLabel.or (env.lookupWorktreeLabel s.cwd)
  gitRootDir := s.gitRootDir
  gitRemotes := s.gitRemotes
  sourceWorkspaceDir := s.sourceWorkspaceDir
  sessionKind := s.sessionKind

/-- Whichever of the two times is more recent. -/
def laterActive (here there : Option Text) : Option Text :=
  match here, there with
  | some l, some r =>
    match env.chrono.parseFromRfc3339 l, env.chrono.parseFromRfc3339 r with
    | some lt, some rt => some (if rt.utc ≤ lt.utc then l else r)
    | some _, none => some l
    | none, some _ => some r
    | none, none => none
  | some l, none => some l
  | none, there => there

/-- The entry of a registry record over the local entry, if there is one. -/
def ofRecord (r : SessionRecord) (existing : Option MergedSession) : MergedSession :=
  let here := existing.getD {}
  { sessionId := r.sessionId
    summary := r.summary
    firstPrompt := r.firstPrompt
    updatedAt := r.updatedAt
    createdAt := r.createdAt
    cwd := r.cwd
    hostname := r.hostname
    source := (if existing.isSome then "both" else "remote").toList
    modelId := r.modelId
    numMessages := max here.numMessages r.lastTurnNumber.toNat
    lastActiveAt := laterActive env here.lastActiveAt r.lastActiveAt
    branch := here.branch
    repoName := here.repoName
    worktreeLabel := here.worktreeLabel
    gitRootDir := here.gitRootDir
    gitRemotes := here.gitRemotes
    sourceWorkspaceDir := here.sourceWorkspaceDir
    sessionKind := here.sessionKind }

/-- A registry session belongs to the listed repository. -/
def inRepo (localRepoUrls : List Text) (r : SessionRecord) : Bool :=
  localRepoUrls.isEmpty ||
    match r.repoRemoteUrl.bind env.normalizeRepoUrl with
    | some url => localRepoUrls.contains url
    | none => false

/-- The sessions by their id. -/
def byId (remote : List SessionRecord) (localSummaries : List Summary) (query : Option Text)
    (localRepoUrls : List Text) : List (Text × MergedSession) :=
  let found := localSummaries.filter fun s => query.all (matchesQuery env · s)
  let here := found.foldl (fun m s => Assoc.insert m s.id (ofSummary env s)) []
  (remote.filter (inRepo env localRepoUrls)).foldl
    (fun m r => Assoc.insert m r.sessionId (ofRecord env r (Assoc.get? m r.sessionId))) here

/-- Newest first; without a time, last; at the same time, by id. -/
abbrev TimeKey := (WithBot Int)ᵒᵈ

def timeKey (t : Option DateTime) : TimeKey := OrderDual.toDual (t.map (·.utc))

def mergeKey (s : MergedSession) : TimeKey ×ₗ Text :=
  toLex (timeKey (effectiveSortTime env s), s.sessionId)

/-- Of the empty sessions in a directory, the first. -/
def dedupEmptySessions (seenEmptyCwds : List Text) : List MergedSession → List MergedSession
  | [] => []
  | s :: sessions =>
    if s.numMessages = 0 then
      if normalizeCwd s.cwd ∈ seenEmptyCwds then dedupEmptySessions seenEmptyCwds sessions
      else s :: dedupEmptySessions (normalizeCwd s.cwd :: seenEmptyCwds) sessions
    else s :: dedupEmptySessions seenEmptyCwds sessions

/-- The merged list before it is truncated. -/
def mergeAll (remote : List SessionRecord) (localSummaries : List Summary) (query : Option Text)
    (localRepoUrls : List Text) : List MergedSession :=
  dedupEmptySessions []
    (sortBy (mergeKey env) ((byId env remote localSummaries query localRepoUrls).map (·.2)))

def merge (remote : List SessionRecord) (localSummaries : List Summary) (query : Option Text)
    (localRepoUrls : List Text) (limit : Nat) : List MergedSession :=
  (mergeAll env remote localSummaries query localRepoUrls).take limit

def filterSummariesByRepo (summaries : List Summary) (repoUrls : List Text) : List Summary :=
  if repoUrls.isEmpty then summaries
  else
    summaries.filter fun s => s.gitRemotes.any fun u =>
      match env.normalizeRepoUrl u with
      | some url => repoUrls.contains url
      | none => false

end Merge

end GrokBuild.SessionList
