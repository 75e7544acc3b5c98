import GrokBuild.HunkTracker.Failure
import GrokBuild.HunkTracker.Loc
import GrokBuild.Hashline.Frame
import GrokBuild.HunkTracker.InOrder
import GrokBuild.CircuitBreaker.Probes
import GrokBuild.Permission.Grants
import GrokBuild.Permission.Rounds
import GrokBuild.Permission.Hiding
import GrokBuild.Workflow.Resume
import GrokBuild.Workflow.OneExecutor
import GrokBuild.ChatHistory.ForkContext
import GrokBuild.Compaction.Carried
import GrokBuild.Scheduler.FailClosed
import GrokBuild.Scheduler.Overlap
import GrokBuild.HunkTracker.Reseed
import GrokBuild.Rewind.Past
import GrokBuild.Rewind.Survivors
import GrokBuild.PlanMode.Informed
import GrokBuild.ChatActor.Capture
import GrokBuild.PromptEditor.Planned
import GrokBuild.PromptQueue.Kept
import GrokBuild.SessionList.TwoLanes
import GrokBuild.PromptEditor.Selected
import GrokBuild.PromptEditor.Undo
import GrokBuild.Permission.ShellCwd
import GrokBuild.SessionStore.SwitchCount
import GrokBuild.WebFetch.Embedded
import GrokBuild.WebFetch.Domain
import GrokBuild.WebFetch.Redirects
import GrokBuild.SignedPolicy.Verdicts
import GrokBuild.HunkTracker.Shift
import GrokBuild.HunkTracker.Believed
import GrokBuild.Hashline.Locality
import GrokBuild.Hashline.Tool
import GrokBuild.Permission.Inline
import GrokBuild.Workflow.Slots
import GrokBuild.Scheduler.ChainSteps
import GrokBuild.HunkTracker.Patch
import GrokBuild.Compaction.Fitted
import GrokBuild.Rewind.Compose
import GrokBuild.ChatActor.Eviction
import GrokBuild.ChatActor.PruneAge
import GrokBuild.CompactionUtils.Anchor
import GrokBuild.SearchReplace.SingleEdit
import GrokBuild.Markdown.HeldBack
import GrokBuild.PromptEditor.Clicks
