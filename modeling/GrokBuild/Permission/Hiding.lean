import GrokBuild.Permission.Agreement
import GrokBuild.Permission.Laws
import GrokBuild.Permission.Peeling

/-!
# Permissions: can a wrapper hide a denied command?

A stack of wrappers is read layer by layer as documented (`Stack`). The gate
looks at two texts of a command line: as it stands, and with everything
peeled off. So a denied command behind a stack is found when the peeling
arrives at it, or else makes the gate ask, and `Faithful` says on which
stacks that is so. On the others the gate may see neither
(`stdbuf_hides_rm`).
-/

namespace GrokBuild.Permission

open TextLines Str

/-- The command line runs the command, through any number of documented
layers. -/
def Stack : List Text → List Text → Prop :=
  Relation.ReflTransGen fun words inner => runs words = some inner

/-- The peeling follows the layers of a stack to its command, or makes the
gate ask on the way. The number counts the layers already in front. -/
inductive Faithful : Nat → List Text → List Text → Prop where
  /-- The command itself does not peel any further. -/
  | command {k : Nat} {c : List Text} (hend : peelStep c = none) : Faithful k c c
  /-- An `env` to ask about, close enough to be looked at. -/
  | asks {k : Nat} {words c : List Text} (henv : envAsks words = true) (hk : k < 31) :
      Faithful k words c
  /-- A prefix that the code finds ambiguous. -/
  | ambiguous {k : Nat} {words c : List Text} (h : stripTransparentPrefix words = .ambiguous) :
      Faithful k words c
  /-- A layer that the code reads as documented. -/
  | layer {k : Nat} {words inner c : List Text} (hruns : runs words = some inner)
      (hread : readable words = true) (henv : envAsks words = false)
      (hambiguous : stripTransparentPrefix words ≠ .ambiguous)
      (rest : Faithful (k + 1) inner c) : Faithful k words c

variable {words : List Text}

theorem peelStep_of_envAsks (h : envAsks words = true) : peelStep words = none := by
  cases words with
  | nil => rfl
  | cons program args =>
    rw [envAsks, Bool.and_eq_true] at h
    obtain ⟨hhead, hflags⟩ := h
    have hname : basename program = "env".toList := by simpa [headIs] using hhead
    have hwrapper : stripWrapperCommand (program :: args) = none := by
      simp only [stripWrapperCommand, hname, hflags, if_true]
      rfl
    have hbare : stripTransparentPrefix (program :: args) = .notPrefix := by
      simp only [stripTransparentPrefix, hname]
      split <;> rfl
    exact peelStep_eq_none hwrapper hbare

theorem peelStep_of_ambiguous (h : stripTransparentPrefix words = .ambiguous) :
    peelStep words = none := by
  rw [peelStep, stripWrapperCommand_of_transparent (by rw [h]; simp), h]

/-- Without a flag, the peeling of a faithful stack ends at its command. -/
theorem Faithful.final_eq {j k : Nat} {c final : List Text} (h : Faithful j words c)
    (hpeeled : Peeled k words final) (hend : peelStep final = none)
    (hbare : stripTransparentPrefix final = .notPrefix) (hasks : envAsks final = true → 31 ≤ j + k) :
    final = c := by
  induction h generalizing k with
  | command hcommand => exact (hpeeled.eq_of_terminal hcommand).2.symm
  | asks henv hj =>
    obtain ⟨rfl, rfl⟩ := hpeeled.eq_of_terminal (peelStep_of_envAsks henv)
    have hfar := hasks henv
    omega
  | ambiguous hambiguous =>
    obtain ⟨rfl, rfl⟩ := hpeeled.eq_of_terminal (peelStep_of_ambiguous hambiguous)
    rw [hambiguous] at hbare
    cases hbare
  | layer hruns hread henv hambiguous _ ih =>
    have hstep := peelStep_eq hruns hread henv hambiguous
    cases hpeeled with
    | refl =>
      rw [hstep] at hend
      cases hend
    | step hpeel rest =>
      rw [hstep, Option.some.injEq] at hpeel
      subst hpeel
      exact ih rest (fun hfinal => by have hfar := hasks hfinal; omega)

namespace CompiledPolicy

variable {ext : Externals} {rules : List PermissionRule}

theorem escalate_of_denied {rule : PermissionRule} (hrule : rule ∈ rules)
    (hdeny : rule.action = .deny) (htool : rule.tool = .bash ∨ rule.tool = .any) {segment : Text}
    (hmatch : ext.patternMatches (.bash segment) rule (ext.matcherOf rule) = true) :
    (new ext rules).escalate segment ≠ none := by
  have hfilter : toolFilterMatches (.bash segment) rule.tool = true := by
    rcases htool with h | h <;> rw [h] <;> rfl
  have hhit : rules.any (hits ext .deny (.bash segment)) = true :=
    List.any_eq_true.mpr ⟨rule, hrule, by simp [hits, hdeny, hfilter, hmatch]⟩
  rw [Ne, ← gateRank_eq_zero, gateRank_escalate, if_pos hhit]
  decide

/-- No decision on a command means that nothing was flagged and neither of
its two texts is escalated. -/
theorem of_evaluateCommandWords_none {policy : CompiledPolicy ext} {words : List Text} {depth : Nat}
    (h : policy.evaluateCommandWords words depth = none) :
    (normalizeCommandWords words).flagged = false ∧
      policy.escalate (joinWords words) = none ∧
      ((normalizeCommandWords words).words.length ≠ words.length →
        policy.escalate (joinWords (normalizeCommandWords words).words) = none) := by
  have hrank : ∀ recurse, policy.commandWordsWith recurse words = none →
      (normalizeCommandWords words).flagged = false ∧
        policy.escalate (joinWords words) = none ∧
        ((normalizeCommandWords words).words.length ≠ words.length →
          policy.escalate (joinWords (normalizeCommandWords words).words) = none) := by
    intro recurse hnone
    rw [← gateRank_eq_zero, gateRank_commandWordsWith] at hnone
    simp only [Nat.max_eq_zero_iff] at hnone
    obtain ⟨⟨⟨⟨hflags, hsplit⟩, hraw⟩, hinner, _⟩, _⟩ := hnone
    have hask : ∀ cond, gateRank (askIf cond) = 0 → cond = false := by
      intro cond hcond
      cases cond with
      | false => rfl
      | true => cases hcond
    have hflags := hask _ hflags
    simp only [Bool.or_eq_false_iff] at hflags
    refine ⟨?_, gateRank_eq_zero.mp hraw, ?_⟩
    · rw [Peel.not_flagged]
      exact ⟨hflags.1.1, hflags.1.2, hask _ hsplit, hflags.2⟩
    · intro hlength
      rw [if_pos hlength] at hinner
      exact gateRank_eq_zero.mp hinner
  cases depth with
  | zero => exact hrank _ h
  | succ n => exact hrank _ h

/-- A denied command behind a faithful stack, or behind none at all, is
refused or asked about, whatever else the policy says. -/
theorem evaluateCommandWords_of_stack (ext : Externals) {rules : List PermissionRule}
    {rule : PermissionRule} (hrule : rule ∈ rules) (hdeny : rule.action = .deny)
    (htool : rule.tool = .bash ∨ rule.tool = .any) {words c : List Text}
    (hmatch : ext.patternMatches (.bash (joinWords c)) rule (ext.matcherOf rule) = true)
    (_hstack : Stack words c) (hfaithful : words = c ∨ Faithful 0 words c) (depth : Nat) :
    (new ext rules).evaluateCommandWords words depth ≠ none := by
  intro hnone
  obtain ⟨hflags, hraw, hinner⟩ := of_evaluateCommandWords_none hnone
  have hescalate := escalate_of_denied hrule hdeny htool hmatch
  rcases hfaithful with rfl | hfaithful
  · exact hescalate hraw
  · obtain ⟨hend, hbare, k, hpeeled, hasks⟩ := normalizeCommandWords_spec hflags
    have hfinal := hfaithful.final_eq hpeeled hend hbare (by simpa using hasks)
    rw [hfinal] at hinner hpeeled
    by_cases hlength : c.length = words.length
    · -- nothing was peeled: the raw text is the command's
      have hle := hpeeled.length_add_le
      obtain rfl : k = 0 := by omega
      rw [← hpeeled.eq_of_zero] at hescalate
      exact hescalate hraw
    · exact hescalate (hinner hlength)

end CompiledPolicy

/-! ## One stack that is read right and one that is not -/

/-- Globs without metacharacters, and no other outside help. -/
def plainExternals : Externals where
  tryParseShell := fun _ => none
  Pattern := Text
  patternNew := some
  matchesWith := fun pattern _ text => pattern == text
  hostStr := fun _ => none
  toLowercase := id

/-- A deny rule on `rm`. -/
def denyRm : PermissionRule := ⟨.deny, .bash, some "rm".toList, .glob⟩

def rmRoot : List Text := ["rm".toList, "-rf".toList, "/".toList]

/-- `timeout --kill-after 5 10 rm -rf /` -/
theorem evaluateCommandWords_of_timeout :
    (CompiledPolicy.new plainExternals [denyRm]).evaluateCommandWords
      (["timeout".toList, "--kill-after".toList, "5".toList, "10".toList] ++ rmRoot)
      maxInlineShellDepth ≠ none :=
  CompiledPolicy.evaluateCommandWords_of_stack plainExternals (List.mem_singleton.mpr rfl) rfl
    (Or.inl rfl) (c := rmRoot) (by decide) (.single (by decide))
    (Or.inr (.layer (by decide) (by decide) (by decide) (by decide)
      (.command (by decide)))) _

/-- `stdbuf --output L rm -rf /` is documented to run `rm -rf /`, which is
denied; the gate takes `L` for the command and lets it pass. -/
theorem stdbuf_hides_rm :
    Stack (["stdbuf".toList, "--output".toList, "L".toList] ++ rmRoot) rmRoot ∧
      plainExternals.patternMatches (.bash (joinWords rmRoot)) denyRm
        (plainExternals.matcherOf denyRm) = true ∧
      (CompiledPolicy.new plainExternals [denyRm]).evaluateCommandWords
        (["stdbuf".toList, "--output".toList, "L".toList] ++ rmRoot) maxInlineShellDepth = none :=
  ⟨.single (by decide), by decide, by decide⟩

end GrokBuild.Permission
