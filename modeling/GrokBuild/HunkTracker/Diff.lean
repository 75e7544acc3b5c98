import GrokBuild.Lib.EditScript
import GrokBuild.HunkTracker.Types

/-!
# Hunk tracker: diffs

`diff.rs`: the hunks of a pair of texts, the line patch that accepts or
reverts one hunk, and the tests that relate the hunks of two successive
diffs.

The line diff itself is the external `similar` crate, a parameter
`D : LineDiff`: any splitting into lines as the crate documents it, and any
function from token lists to correct edit scripts.
-/

namespace GrokBuild.HunkTracker

open TextLines Str EditScript List

/-! ## Line tokens -/

/-- A token ends after a newline and after a carriage return that no
newline follows. -/
def endsToken (c : Char) (rest : Text) : Bool :=
  c == '\n' || (c == '\r' && rest.head? != some '\n')

/-- The line tokens of `similar`: each keeps its terminator (`"\n"`,
`"\r\n"` or a lone `"\r"`), and only the last may have none. -/
def tokenizeLines : Text → List Text
  | [] => []
  | c :: s =>
    if endsToken c s then [c] :: tokenizeLines s
    else match tokenizeLines s with
      | [] => [[c]]
      | t :: ts => (c :: t) :: ts

@[simp] theorem flatten_tokenizeLines (s : Text) : (tokenizeLines s).flatten = s := by
  induction s with
  | nil => rfl
  | cons c s ih =>
    rw [tokenizeLines]
    split
    · simp [ih]
    · split
      · next h => simp_all
      · next t ts h => simpa [h] using ih

theorem tokenizeLines_injective {s t : Text} (h : tokenizeLines s = tokenizeLines t) :
    s = t := by
  rw [← flatten_tokenizeLines s, h, flatten_tokenizeLines]

/-- The line diff of `similar`. -/
structure LineDiff extends Engine Text where
  tokens : Text → List Text
  tokens_eq : ∀ s, tokens s = tokenizeLines s

def LineDiff.lcs : LineDiff where
  toEngine := .lcs
  tokens := tokenizeLines
  tokens_eq _ := rfl

/-! ## Computing hunks -/

def maxDiffFileSize : Nat := 1024 * 1024

/-- `HunkBuilder::build`; the builder's fields are those of a `Region`. -/
def buildHunk (path : PathBuf) (source : HunkSource) (now : Nat) (id : HunkId)
    (r : Region Text) : Hunk where
  id := id
  path := path
  lineInfo :=
    { oldStart := r.oldStart, oldCount := r.removed.length, newStart := r.newStart
      newCount := r.added.length }
  source := source
  oldText := if r.removed.isEmpty then none else some r.removed.flatten
  newText := r.added.flatten
  patch := none
  createdAt := now
  selected := false

/-- The diff of two texts, in line tokens. -/
def diffLines (D : LineDiff) (baseline current : Text) : List (Change Text) :=
  D.script (D.tokens baseline) (D.tokens current)

theorem diffLines_correct (D : LineDiff) (b c : Text) :
    Correct (tokenizeLines b) (tokenizeLines c) (diffLines D b c) := by
  rw [diffLines, D.tokens_eq, D.tokens_eq]
  exact D.correct _ _

/-- The changed regions of two texts, with 1-based line numbers. -/
def diffRegions (D : LineDiff) (baseline current : Text) : List (Region Text) :=
  regions 1 1 none (diffLines D baseline current)

/-- `compute_hunks`. The ids are the ones `HunkId::new` issues from `fresh`
on. -/
def computeHunks (D : LineDiff) (env : Env) (fresh : Nat) (path : PathBuf)
    (baseline current : Text) (source : HunkSource) : List Hunk :=
  if baseline = current then []
  else if byteLen baseline > maxDiffFileSize ∨ byteLen current > maxDiffFileSize then []
  else if env.timedOut baseline current then []
  else ((diffRegions D baseline current).zipIdx fresh).map fun (r, n) =>
    buildHunk path source env.now ⟨n⟩ r

theorem computeHunks_of_not_diffed {D : LineDiff} {env : Env} {n : Nat} {p : PathBuf}
    {b c : Text} {source : HunkSource}
    (h : b = c ∨ ¬ (byteLen b ≤ maxDiffFileSize ∧ byteLen c ≤ maxDiffFileSize)
      ∨ env.timedOut b c = true) :
    computeHunks D env n p b c source = [] := by
  rw [computeHunks]
  split
  · rfl
  · split
    · rfl
    · next hbc hsize =>
      have ht : env.timedOut b c = true := by
        rcases h with h | h | h
        · exact absurd h hbc
        · omega
        · exact h
      rw [if_pos ht]

/-! ## Patching -/

/-- `patch_lines`: replace `removeCount` lines from the 1-based line
`startLine` on by the lines of `insertText`. -/
def patchLines (content : Text) (startLine removeCount : Nat) (insertText : Text) : Text :=
  let ls := lines content
  let startIdx := startLine - 1
  let inserted := if insertText = [] then [] else lines insertText
  let output := joinLines (ls.take startIdx ++ inserted ++ ls.drop (startIdx + removeCount))
  if endsNl content = true ∧ output ≠ [] then output ++ ['\n'] else output

/-! ## Relating two diffs -/

def hunksMatchContent (a b : Hunk) : Bool :=
  a.path == b.path && a.oldText == b.oldText && a.newText == b.newText

def hunkMoved (old new : Hunk) : Bool :=
  hunksMatchContent old new && old.lineInfo != new.lineInfo

/-- `hunks_overlap`: by their line ranges in the baseline; touching ranges
overlap. -/
def hunksOverlap (a b : Hunk) : Bool :=
  if a.path ≠ b.path then false
  else
    let aStart := a.lineInfo.oldStart
    let aEnd := saturatingAdd a.lineInfo.oldStart a.lineInfo.oldCount
    let bStart := b.lineInfo.oldStart
    let bEnd := saturatingAdd b.lineInfo.oldStart b.lineInfo.oldCount
    if a.lineInfo.oldCount = 0 ∧ b.lineInfo.oldCount = 0 then aStart == bStart
    else if a.lineInfo.oldCount = 0 then decide (bStart ≤ aStart ∧ aStart ≤ bEnd)
    else if b.lineInfo.oldCount = 0 then decide (aStart ≤ bStart ∧ bStart ≤ aEnd)
    else !decide (aEnd < bStart ∨ bEnd < aStart)

/-- `calculate_overlap_size`, in baseline lines. -/
def calculateOverlapSize (a b : HunkLineInfo) : Nat :=
  min (a.oldStart + a.oldCount) (b.oldStart + b.oldCount) - max a.oldStart b.oldStart

def absDiff (a b : Nat) : Nat := (a - b) + (b - a)

/-- `Iterator::min_by_key`: of several minimal elements the first. -/
def minByKey {α : Type} (key : α → Nat) : List α → Option α
  | [] => none
  | x :: xs =>
    match minByKey key xs with
    | none => some x
    | some y => if key x ≤ key y then some x else some y

/-- `Iterator::max_by_key`: of several maximal elements the last. -/
def maxByKey {α : Type} (key : α → Nat) : List α → Option α
  | [] => none
  | x :: xs =>
    match maxByKey key xs with
    | none => some x
    | some y => if key y < key x then some x else some y

/-- `find_matching_old_hunk`: the nearest hunk of the same content, else the
one with the largest overlap. -/
def findMatchingOldHunk (newHunk : Hunk) (oldHunks : List Hunk) : Option Hunk :=
  let contentMatches := oldHunks.filter (hunksMatchContent · newHunk)
  if contentMatches ≠ [] then
    minByKey (fun o => absDiff o.lineInfo.newStart newHunk.lineInfo.newStart) contentMatches
  else
    maxByKey (fun o => calculateOverlapSize o.lineInfo newHunk.lineInfo)
      (oldHunks.filter (hunksOverlap · newHunk))

variable {α : Type}

theorem minByKey_mem (key : α → Nat) {xs : List α} {x : α} (h : minByKey key xs = some x) : x ∈ xs := by
  induction xs generalizing x with
  | nil => cases h
  | cons y ys ih =>
    rw [minByKey] at h
    split at h
    · cases h; exact mem_cons_self
    · next z hz =>
      split at h
      · cases h; exact mem_cons_self
      · cases h; exact mem_cons_of_mem _ (ih hz)

theorem maxByKey_mem (key : α → Nat) {xs : List α} {x : α} (h : maxByKey key xs = some x) : x ∈ xs := by
  induction xs generalizing x with
  | nil => cases h
  | cons y ys ih =>
    rw [maxByKey] at h
    split at h
    · cases h; exact mem_cons_self
    · next z hz =>
      split at h
      · cases h; exact mem_cons_self
      · cases h; exact mem_cons_of_mem _ (ih hz)

variable {newHunk : Hunk} {oldHunks : List Hunk}

theorem findMatchingOldHunk_spec {o : Hunk} (h : findMatchingOldHunk newHunk oldHunks = some o) :
    o ∈ oldHunks ∧ (hunksMatchContent o newHunk = true ∨ hunksOverlap o newHunk = true) := by
  rw [findMatchingOldHunk] at h
  split at h
  · have hm := mem_filter.mp (minByKey_mem _ h)
    exact ⟨hm.1, .inl hm.2⟩
  · have hm := mem_filter.mp (maxByKey_mem _ h)
    exact ⟨hm.1, .inr hm.2⟩

theorem minByKey_eq_none (key : α → Nat) {xs : List α} : minByKey key xs = none ↔ xs = [] := by
  cases xs with
  | nil => simp [minByKey]
  | cons x xs =>
    rw [minByKey]
    split
    · simp
    · split <;> simp

theorem maxByKey_eq_none (key : α → Nat) {xs : List α} : maxByKey key xs = none ↔ xs = [] := by
  cases xs with
  | nil => simp [maxByKey]
  | cons x xs =>
    rw [maxByKey]
    split
    · simp
    · split <;> simp

theorem findMatchingOldHunk_eq_none (h : findMatchingOldHunk newHunk oldHunks = none) :
    ∀ o ∈ oldHunks, hunksMatchContent o newHunk = false ∧ hunksOverlap o newHunk = false := by
  intro o ho
  rw [findMatchingOldHunk] at h
  split at h
  · next hne => exact absurd ((minByKey_eq_none _).mp h) hne
  · next hnil =>
    have h1 := filter_eq_nil_iff.mp (not_not.mp hnil) o ho
    have h2 := filter_eq_nil_iff.mp ((maxByKey_eq_none _).mp h) o ho
    exact ⟨by simpa using h1, by simpa using h2⟩

theorem findMatchingOldHunk_content {o o' : Hunk} (h : findMatchingOldHunk newHunk oldHunks = some o)
    (ho' : o' ∈ oldHunks) (hmatch : hunksMatchContent o' newHunk = true) :
    hunksMatchContent o newHunk = true := by
  rw [findMatchingOldHunk] at h
  split at h
  · exact (mem_filter.mp (minByKey_mem _ h)).2
  · next hnil =>
    have hmem : o' ∈ oldHunks.filter (hunksMatchContent · newHunk) :=
      mem_filter.mpr ⟨ho', hmatch⟩
    rw [not_not.mp hnil] at hmem
    cases hmem

end GrokBuild.HunkTracker
