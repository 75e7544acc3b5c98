import GrokBuild.Lib.Replay
import GrokBuild.Workflow.Crash
import GrokBuild.Workflow.Engine

/-!
# Workflows: what a journal tells a script

`toldCall` reads the end of a call off the journal alone, with no host and
no write. The host functions compute the same wherever it gives something
(`run_told`), so that a journal tells a script what it told before.
-/

namespace GrokBuild.Workflow

open TextLines Str LineLog Replay List Option

/-! ## Reading entries -/

/-- The result of the entry at the position, if it is the entry of the call. -/
def told (entries : List JournalEntry) (seq : Nat) (kind hash : Text) : Option Json :=
  match entries[seq]? with
  | none => none
  | some e => if e.seq = seq ∧ e.kind = kind ∧ e.reqHash = hash then some e.result else none
variable {kind hash : Text} {v : Json}
theorem told_lt {entries : List JournalEntry} {seq : Nat}
    (h : told entries seq kind hash = some v) : seq < entries.length := by
  unfold told at h
  split at h
  · cases h
  · next heq => exact (List.getElem?_eq_some_iff.mp heq).1

theorem told_mono {entries entries' : List JournalEntry} (hle : entries <+: entries')
    {seq : Nat} (h : told entries seq kind hash = some v) :
    told entries' seq kind hash = some v := by
  have hlt := told_lt h
  obtain ⟨rest, rfl⟩ := hle
  unfold told at h ⊢
  rw [getElem?_append_left hlt]
  exact h

theorem told_append (entries : List JournalEntry) (kind hash : Text) (v : Json) (now : Nat) :
    told (entries ++ [⟨entries.length, kind, hash, v, now⟩]) entries.length kind hash = some v := by
  simp [told]

theorem replay_told {j : Journal} {seq : Nat}
    (h : told j.entries seq kind hash = some v) : j.replay seq kind hash = .ok (some v) := by
  cases heq : j.entries[seq]? with
  | none => simp [told, heq] at h
  | some e =>
    rw [told, heq] at h
    by_cases hmatch : e.seq = seq ∧ e.kind = kind ∧ e.reqHash = hash
    · obtain rfl := Option.some.inj ((if_pos hmatch).symm.trans h)
      simp [Journal.replay, heq, hmatch]
    · cases (if_neg hmatch).symm.trans h

theorem replay_end {j : Journal} {seq : Nat} (h : j.entries.length ≤ seq) (kind hash : Text) :
    j.replay seq kind hash = .ok none := by
  simp [Journal.replay, h]

/-- What a script sees of a recorded value. -/
def seenOf (recorded : Json) : Seen :=
  match replayHostError recorded with
  | some message => .error message
  | none => .value recorded

/-- A value of a panel that is no marker. -/
def Json.plain (v : Json) : Bool := (v.get hostTerminalKey).isNone && (replayHostError v).isNone

/-! ## Reading calls -/

/-- A call that needs neither the host nor the journal. -/
def HostCall.immediate : HostCall → Option Seen
  | .emit => some .unit
  | .pause kind _ => if PauseKind.parse kind = none then some (.error (unknownPauseKind kind)) else none
  | .awaitUser kind _ =>
    if PauseKind.parse kind = none then some (.error (unknownPauseKind kind)) else none
  | .parallel items =>
    if items.length > maxParallel then some (.error (tooManyItems items.length)) else none
  | _ => none

section

variable (requestHash : Text → Json → Text)

/-- The values of a panel, when the journal has them all. -/
def toldPanel (entries : List JournalEntry) : Nat → List Json → Option (List Json)
  | _, [] => some []
  | seq, opts :: rest =>
    match told entries seq spawnAgent (requestHash spawnAgent opts),
      toldPanel entries (seq + 1) rest with
    | some v, some vs => if v.plain then some (v :: vs) else none
    | _, _ => none

/-- What the journal tells of a call, and the position behind it. -/
def toldCall (entries : List JournalEntry) (seq : Nat) (c : HostCall) : Option (Seen × Nat) :=
  match c.immediate with
  | some s => some (s, seq)
  | none =>
    match c with
    | .agent opts =>
      (told entries seq spawnAgent (requestHash spawnAgent opts)).map (seenOf ·, seq + 1)
    | .parallel items =>
      (toldPanel requestHash entries seq items).map (.values ·, seq + items.length)
    | .host kind payload =>
      (told entries seq kind.name (requestHash kind.name payload)).map (seenOf ·, seq + 1)
    | .awaitUser kind message =>
      (told entries seq awaitUser (requestHash awaitUser (awaitPayload kind message))).map
        fun _ => (.unit, seq + 1)
    | _ => none

variable {requestHash} {entries entries' : List JournalEntry} {seq : Nat}

theorem toldPanel_cons {opts : Json} {rest : List Json} {vs : List Json} :
    toldPanel requestHash entries seq (opts :: rest) = some vs ↔
      ∃ v tail, told entries seq spawnAgent (requestHash spawnAgent opts) = some v ∧
        toldPanel requestHash entries (seq + 1) rest = some tail ∧ v.plain = true ∧
        vs = v :: tail := by
  rw [toldPanel]
  constructor
  · intro h
    split at h
    · next v tail hv htail =>
      split at h
      · next hplain =>
        cases h
        exact ⟨v, tail, hv, htail, hplain, rfl⟩
      · cases h
    · cases h
  · intro ⟨v, tail, hv, htail, hplain, hvs⟩
    simp [hv, htail, hplain, hvs]
variable {items vs : List Json}

theorem toldPanel_mono (hle : entries <+: entries')
    (h : toldPanel requestHash entries seq items = some vs) :
    toldPanel requestHash entries' seq items = some vs := by
  induction items generalizing seq vs with
  | nil => exact h
  | cons opts rest ih =>
    obtain ⟨v, tail, hv, htail, hplain, rfl⟩ := toldPanel_cons.mp h
    exact toldPanel_cons.mpr ⟨v, tail, told_mono hle hv, ih htail, hplain, rfl⟩

theorem toldPanel_fits
    (h : toldPanel requestHash entries seq items = some vs) (hne : items ≠ []) :
    seq + items.length ≤ entries.length := by
  induction items generalizing seq vs with
  | nil => exact absurd rfl hne
  | cons opts rest ih =>
    obtain ⟨v, tail, hv, htail, _, _⟩ := toldPanel_cons.mp h
    have hlt := told_lt hv
    by_cases hrest : rest = []
    · subst hrest
      exact hlt
    · have := ih htail hrest
      rw [length_cons]
      omega

/-- A longer journal tells the same and more. -/
theorem toldCall_mono (hle : entries <+: entries') (k : Nat) (c : HostCall) (r : Seen × Nat)
    (h : toldCall requestHash entries k c = some r) :
    toldCall requestHash entries' k c = some r := by
  unfold toldCall at h ⊢
  split at h
  · exact h
  · split at h
    · obtain ⟨v, hv, rfl⟩ := map_eq_some_iff.mp h
      rw [told_mono hle hv]
      rfl
    · obtain ⟨vs, hvs, rfl⟩ := map_eq_some_iff.mp h
      rw [toldPanel_mono hle hvs]
      rfl
    · obtain ⟨v, hv, rfl⟩ := map_eq_some_iff.mp h
      rw [told_mono hle hv]
      rfl
    · obtain ⟨v, hv, rfl⟩ := map_eq_some_iff.mp h
      rw [told_mono hle hv]
      rfl
    · cases h

theorem toldCall_position {k k' : Nat} {c : HostCall} {s : Seen}
    (h : toldCall requestHash entries k c = some (s, k')) :
    k ≤ k' ∧ (k ≤ entries.length → k' ≤ entries.length) := by
  unfold toldCall at h
  split at h
  · cases h
    exact ⟨le_rfl, id⟩
  · split at h
    · obtain ⟨v, hv, heq⟩ := map_eq_some_iff.mp h
      cases heq
      have := told_lt hv
      omega
    · next items _ =>
      obtain ⟨vs, hvs, heq⟩ := map_eq_some_iff.mp h
      cases heq
      refine ⟨Nat.le_add_right _ _, ?_⟩
      intro hk
      -- only the empty panel is told at the end
      by_cases hne : items = []
      · subst hne
        exact hk
      · exact toldPanel_fits hvs hne
    · obtain ⟨v, hv, heq⟩ := map_eq_some_iff.mp h
      cases heq
      have := told_lt hv
      omega
    · obtain ⟨v, hv, heq⟩ := map_eq_some_iff.mp h
      cases heq
      have := told_lt hv
      omega
    · cases h

end

/-! ## The host functions on a journal that covers the call -/

section Recalled

variable {codec : Codec JournalEntry} {requestHash : Text → Json → Text} {ctx : Ctx} {env : Env}

theorem nextSeq_ok (h : ctx.seq < maxHostCalls) :
    ctx.nextSeq = .ok (ctx.seq, { ctx with seq := ctx.seq + 1 }) := by
  rw [Ctx.nextSeq, if_neg (by omega)]

theorem hostCall_told (hcap : ctx.journal.entries.length ≤ maxHostCalls) {kind : Text}
    {payload v : Json} (request : Request) (reply : Except HostError Json)
    (h : told ctx.journal.entries ctx.seq kind (requestHash kind payload) = some v) :
    hostCall codec requestHash env ctx kind payload request reply =
      ⟨{ ctx with seq := ctx.seq + 1 }, [], .seen (seenOf v)⟩ := by
  have hlt := told_lt h
  simp only [hostCall, nextSeq_ok (show ctx.seq < maxHostCalls by omega), replay_told h]
  unfold seenOf
  cases replayHostError v <;> rfl

theorem spawnAgentCall_told (hcap : ctx.journal.entries.length ≤ maxHostCalls) {opts v : Json}
    (h : told ctx.journal.entries ctx.seq spawnAgent (requestHash spawnAgent opts) = some v) :
    spawnAgentCall codec requestHash env ctx opts =
      ⟨{ ctx with seq := ctx.seq + 1 }, [], .seen (seenOf v)⟩ := by
  simp only [spawnAgentCall, replay_told h]
  exact hostCall_told hcap _ _ h

theorem awaitUserCall_told (hcap : ctx.journal.entries.length ≤ maxHostCalls)
    {kind message : Text} (hkind : PauseKind.parse kind ≠ none)
    (h : told ctx.journal.entries ctx.seq awaitUser
      (requestHash awaitUser (awaitPayload kind message)) = some v) :
    awaitUserCall codec requestHash env ctx kind message =
      ⟨{ ctx with seq := ctx.seq + 1 }, [], .seen .unit⟩ := by
  have hlt := told_lt h
  obtain ⟨parsed, hparsed⟩ := ne_none_iff_exists'.mp hkind
  simp only [awaitUserCall, hparsed, nextSeq_ok (show ctx.seq < maxHostCalls by omega),
    replay_told h]

/-! ### Panels -/

theorem countLive_told {j : Journal} {seq : Nat}
    (h : toldPanel requestHash j.entries seq items = some vs) :
    countLive requestHash j seq items = .ok 0 := by
  induction items generalizing seq vs with
  | nil => rfl
  | cons opts rest ih =>
    obtain ⟨v, tail, hv, htail, _, _⟩ := toldPanel_cons.mp h
    simp [countLive, replay_told hv, ih htail]

theorem startPanel_told (i : Nat)
    (hcap : ctx.seq + items.length ≤ maxHostCalls)
    (h : toldPanel requestHash ctx.journal.entries ctx.seq items = some vs) :
    startPanel requestHash env i ctx items =
      ({ ctx with seq := ctx.seq + items.length }, [], .ok (vs.map .replayed)) := by
  induction items generalizing ctx vs i with
  | nil =>
    cases h
    rfl
  | cons opts rest ih =>
    obtain ⟨v, tail, hv, htail, _, rfl⟩ := toldPanel_cons.mp h
    rw [length_cons] at hcap
    have hrest := @ih { ctx with seq := ctx.seq + 1 } tail (i + 1) (by show _ + 1 + _ ≤ _; omega) htail
    simp only [startPanel, nextSeq_ok (show ctx.seq < maxHostCalls by omega), replay_told hv,
      hrest]
    simp [Except.map, Nat.add_assoc, Nat.add_comm 1]

theorem resolve_told (p : Panel) (h : v.plain = true) :
    p.resolve (.replayed v) = p.push none v := by
  rw [Json.plain, Bool.and_eq_true, isNone_iff_eq_none, isNone_iff_eq_none] at h
  simp [Panel.resolve, h.1, h.2]

theorem foldl_resolve_told {entries : List JournalEntry} {seq : Nat}
    (h : toldPanel requestHash entries seq items = some vs) (p : Panel) :
    (vs.map PendingAgent.replayed).foldl Panel.resolve p =
      { p with resolved := p.resolved ++ vs.map (none, ·) } := by
  induction items generalizing seq vs p with
  | nil =>
    cases h
    simp
  | cons opts rest ih =>
    obtain ⟨v, tail, _, htail, hplain, rfl⟩ := toldPanel_cons.mp h
    rw [map_cons, foldl_cons, resolve_told p hplain, ih htail]
    simp [Panel.push]

theorem recordPanel_told (i : Nat) (ctx : Ctx) (vs : List Json) :
    recordPanel codec env i ctx (vs.map (none, ·)) = (ctx, none) := by
  induction vs with
  | nil => rfl
  | cons v vs ih => exact ih

theorem parallelCall_told (hcap : ctx.journal.entries.length ≤ maxHostCalls)
    (hsize : items.length ≤ maxParallel)
    (hseq : ctx.seq ≤ ctx.journal.entries.length)
    (h : toldPanel requestHash ctx.journal.entries ctx.seq items = some vs) :
    parallelCall codec requestHash env ctx items =
      ⟨{ ctx with seq := ctx.seq + items.length }, [], .seen (.values vs)⟩ := by
  have hfits : ctx.seq + items.length ≤ maxHostCalls := by
    by_cases hne : items = []
    · rw [hne, length_nil]
      omega
    · have := toldPanel_fits h hne
      omega
  simp only [parallelCall, if_neg (Nat.not_lt_of_le hsize), countLive_told h,
    reserveAgentCalls, if_true, startPanel_told 0 hfits h, foldl_resolve_told h]
  simp [finishPanel, Panel.start, recordPanel_told, Function.comp_def]

/-- A call that the journal tells ends as told, and leaves the journal and the
host alone; only a notification is sent again. -/
theorem run_told (hcap : ctx.journal.entries.length ≤ maxHostCalls)
    (hseq : ctx.seq ≤ ctx.journal.entries.length) {c : HostCall} {s : Seen} {k : Nat}
    (h : toldCall requestHash ctx.journal.entries ctx.seq c = some (s, k)) :
    ∃ requests, c.run codec requestHash env ctx = ⟨{ ctx with seq := k }, requests, .seen s⟩ ∧
      (c ≠ .emit → requests = []) := by
  unfold toldCall at h
  cases c with
  | agent opts =>
    obtain ⟨v, hv, heq⟩ := map_eq_some_iff.mp h
    cases heq
    exact ⟨[], spawnAgentCall_told hcap hv, fun _ => rfl⟩
  | parallel items =>
    by_cases hsize : items.length > maxParallel
    · simp only [HostCall.immediate, if_pos hsize] at h
      cases h
      exact ⟨[], by simp [HostCall.run, parallelCall, hsize], fun _ => rfl⟩
    · simp only [HostCall.immediate, if_neg hsize] at h
      obtain ⟨vs, hvs, heq⟩ := map_eq_some_iff.mp h
      cases heq
      exact ⟨[], parallelCall_told hcap (Nat.le_of_not_lt hsize) hseq hvs, fun _ => rfl⟩
  | host kind payload =>
    obtain ⟨v, hv, heq⟩ := map_eq_some_iff.mp h
    cases heq
    exact ⟨[], hostCall_told hcap _ _ hv, fun _ => rfl⟩
  | awaitUser kind message =>
    by_cases hkind : PauseKind.parse kind = none
    · simp only [HostCall.immediate, if_pos hkind] at h
      cases h
      exact ⟨[], by simp [HostCall.run, awaitUserCall, hkind], fun _ => rfl⟩
    · simp only [HostCall.immediate, if_neg hkind] at h
      obtain ⟨v, hv, heq⟩ := map_eq_some_iff.mp h
      cases heq
      exact ⟨[], awaitUserCall_told hcap hkind hv, fun _ => rfl⟩
  | emit =>
    cases h
    exact ⟨_, rfl, fun hne => absurd rfl hne⟩
  | pause kind message =>
    by_cases hkind : PauseKind.parse kind = none
    · simp only [HostCall.immediate, if_pos hkind] at h
      cases h
      exact ⟨[], by simp [HostCall.run, hkind], fun _ => rfl⟩
    · simp only [HostCall.immediate, if_neg hkind] at h
      cases h
  | complete value => cases h

end Recalled

end GrokBuild.Workflow
