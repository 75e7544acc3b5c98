import GrokBuild.SessionList.Merge

/-!
# Session lists: pages

`unified_list/row.rs`, `unified_list/cursor.rs` and `unified_list/mod.rs`: the
rows of a listing, the cursor between two pages, and a page of the unified
list, without facet filters. A page reads its lanes anew and takes up behind
the last row of the page before.
-/

namespace GrokBuild.SessionList

open TextLines Paging

inductive SessionKind where
  | build
  | chat
  deriving DecidableEq, Repr

/-- The order of the variants. -/
def SessionKind.rank : SessionKind → Nat
  | .build => 0
  | .chat => 1

structure UnifiedRow where
  kind : SessionKind
  legacy : MergedSession
  title : Text
  updatedAt : Option Text
  deriving DecidableEq, Repr

structure BoundaryKey where
  updatedAt : Text
  kind : SessionKind
  sessionId : Text
  deriving DecidableEq, Repr

structure CompositeCursor where
  boundary : Option BoundaryKey := none
  convPageToken : Option Text := none
  convPageDrained : Bool := false
  deriving DecidableEq, Repr

/-- The wire form of a cursor (JSON in base64): it reads back as written. -/
structure CursorCodec (Wire : Type) where
  encode : CompositeCursor → Wire
  decode : Wire → CompositeCursor
  decode_encode : ∀ c, decode (encode c) = c

inductive PartialReason where
  | timeout
  | error
  | noOauth
  deriving DecidableEq, Repr

inductive ConvLane where
  | skipped
  | degraded (reason : PartialReason)
  | page (rows : List UnifiedRow) (nextToken : Option Text) (frontier : Option BoundaryKey)

structure Paginated where
  candidates : List UnifiedRow
  emitCount : Nat
  nextCursor : Option CompositeCursor
  partialReason : Option PartialReason

/-- The order of the rows: newest first, then by kind, then by id. -/
abbrev SortKey := TimeKey ×ₗ Nat ×ₗ Text

section Rows

variable (chrono : Chrono)

def rowSortKey (row : UnifiedRow) : SortKey :=
  toLex (timeKey (row.updatedAt.bind chrono.parseFromRfc3339),
    toLex (row.kind.rank, row.legacy.sessionId))

def boundarySortKey (boundary : BoundaryKey) : SortKey :=
  toLex (timeKey (chrono.parseFromRfc3339 boundary.updatedAt),
    toLex (boundary.kind.rank, boundary.sessionId))

def boundaryOf (row : UnifiedRow) : BoundaryKey where
  updatedAt := row.updatedAt.getD []
  kind := row.kind
  sessionId := row.legacy.sessionId

/-- How far a page of the conversations' lane reaches, when it has more. -/
def convFrontier (rawRows : List UnifiedRow) (hasMore : Bool) : Option BoundaryKey :=
  if hasMore then ((sortBy (rowSortKey chrono) rawRows).getLast?).map boundaryOf else none

def mergeAndPaginate (localRows : List UnifiedRow) (conv : ConvLane) (cursor : CompositeCursor)
    (limit : Nat) : Paginated :=
  let (convRows, convNextToken, convFetched, convFrontier, partialReason) :=
    match conv with
    | .skipped => ([], none, false, none, none)
    | .degraded reason => ([], none, false, none, some reason)
    | .page rows nextToken frontier => (rows, nextToken, true, frontier, none)
  let keyed := behind (rowSortKey chrono) (cursor.boundary.map (boundarySortKey chrono))
    (localRows ++ convRows)
  let keyed := sortBy (rowSortKey chrono) keyed
  let emitCount := min keyed.length limit
  let emitCount :=
    match convFrontier with
    | some frontier =>
      min emitCount
        (keyed.takeWhile fun r => rowSortKey chrono r ≤ boundarySortKey chrono frontier).length
    | none => emitCount
  let newBoundary := (keyed.take emitCount).getLast?.map boundaryOf
  let tail := keyed.drop emitCount
  let localHasMore := tail.any (·.kind = .build)
  let convInTail := tail.any (·.kind = .chat)
  let (nextConvToken, nextConvDrained, convHasMore) :=
    if convFetched then
      if convInTail then (cursor.convPageToken, false, true)
      else (convNextToken, true, convNextToken.isSome)
    else if partialReason.isSome ∧ cursor.convPageToken.isSome ∧ newBoundary.isSome then
      (cursor.convPageToken, cursor.convPageDrained, true)
    else (cursor.convPageToken, cursor.convPageDrained, false)
  { candidates := keyed
    emitCount
    nextCursor :=
      if localHasMore || convHasMore then
        some
          { boundary := newBoundary.or cursor.boundary
            convPageToken := nextConvToken
            convPageDrained := nextConvDrained }
      else none
    partialReason }

end Rows

/-- The time the picker shows, written anew. -/
def effectiveLocalTs (env : MergeEnv) (m : MergedSession) : Option Text :=
  (effectiveSortTime env m).map env.chrono.toRfc3339

def mergedSessionToRow (env : MergeEnv) (m : MergedSession) : UnifiedRow where
  kind := .build
  legacy := m
  title := m.summary
  updatedAt := effectiveLocalTs env m

/-! ## A page of the unified list -/

inductive CwdScope where
  | only
  | withSiblings
  | relaxIfEmpty
  deriving DecidableEq, Repr

inductive ListScope where
  | cwd
  | repo
  | all
  deriving DecidableEq, Repr

structure ListReq (Wire : Type) where
  cwd : Option Text
  query : Option Text
  limit : Option Nat
  metaLimit : Option Nat
  cursor : Option Wire
  cwdScope : CwdScope

def defaultLimit : Nat := 30

def ListReq.pageLimit {Wire : Type} (req : ListReq Wire) : Nat :=
  (req.limit.or req.metaLimit).getD defaultLimit

/-- What a listing finds: the sessions of the request's directories on disk
and in the registry, the URLs of the repository, and the sessions of all directories. -/
structure Lanes where
  localSummaries : List Summary
  remote : List SessionRecord
  repoUrls : List Text
  everywhere : List Summary

structure UnifiedListResult (Wire : Type) where
  rows : List UnifiedRow
  nextCursor : Option Wire
  conversationsPartial : Option PartialReason
  scope : ListScope

section Listing

variable {Wire : Type} (env : MergeEnv)

/-- No facet filters are set here. -/
def relaxEligible (req : ListReq Wire) : Bool :=
  req.cwdScope = .relaxIfEmpty && req.cwd.isSome && req.query.isNone

def laneHasNoMessages (rows : List UnifiedRow) : Bool := rows.all (·.legacy.numMessages = 0)

def toRows (merged : List MergedSession) : List UnifiedRow := merged.map (mergedSessionToRow env)

/-- The local lane of a page, and the lane it falls back to when no session of
the directory has messages and one elsewhere does. -/
def localLane (lanes : Lanes) (req : ListReq Wire) (window : Nat) : List UnifiedRow × ListScope :=
  let rows := toRows env (merge env lanes.remote lanes.localSummaries req.query lanes.repoUrls window)
  if relaxEligible req && laneHasNoMessages rows then
    let scope := if lanes.repoUrls.isEmpty then ListScope.all else .repo
    let repoSummaries := filterSummariesByRepo env lanes.everywhere lanes.repoUrls
    let relaxed := toRows env (merge env lanes.remote repoSummaries none lanes.repoUrls window)
    if laneHasNoMessages relaxed then (rows, .cwd) else (relaxed, scope)
  else (rows, .cwd)

/-- `build_unified_list`; `conv` is the conversations' lane for a page token. -/
def buildUnifiedList (codec : CursorCodec Wire) (lanes : Lanes) (conv : Option Text → ConvLane)
    (req : ListReq Wire) : UnifiedListResult Wire :=
  let limit := req.pageLimit
  let cursor := (req.cursor.map codec.decode).getD {}
  let (localRows, scope) := localLane env lanes req (overFetch limit)
  let page := mergeAndPaginate env.chrono localRows (conv cursor.convPageToken) cursor limit
  { rows := page.candidates.take page.emitCount
    nextCursor := page.nextCursor.map codec.encode
    conversationsPartial := page.partialReason
    scope }

/-- Pages from the cursor on, each with the next cursor of the one before,
until a page has none. The fuel is the number of pages. -/
def walk (codec : CursorCodec Wire) (lanes : Lanes) (conv : Option Text → ConvLane)
    (req : ListReq Wire) : Nat → Option Wire → Option (List UnifiedRow)
  | 0, _ => none
  | fuel + 1, cursor =>
    let page := buildUnifiedList env codec lanes conv { req with cursor }
    match page.nextCursor with
    | none => some page.rows
    | some next => (walk codec lanes conv req fuel (some next)).map (page.rows ++ ·)

end Listing

end GrokBuild.SessionList
