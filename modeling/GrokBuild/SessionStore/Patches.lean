import GrokBuild.SessionStore.Summary

/-!
# Session storage: updates of independent writers

What is left of the summary when any number of writers have applied their
patches to it under the lock, in whatever order. Each field is a fold of the
updates that name it, so its final value is read off the library of registers.
-/

namespace GrokBuild.SessionStore

open TextLines Str LineLog Register List

namespace Summary

/-! ## One patch, field by field -/

variable (s : Summary) (patch : SummaryPatch) (now : DateTime)

/-- The rules for titles leave what a title does not touch. -/
theorem applyTitle_same {β : Type} (π : Summary → β) {manual automatic : Option Text}
    (h : ∀ (s : Summary) title b, π { s.setTitle title with titleIsManual := b } = π s) :
    π (s.applyTitle manual automatic).1 = π s := by
  unfold applyTitle
  split
  · exact h s _ _
  · split
    · exact h s _ _
    · rfl
  · rfl

/-- The fields that no patch can name. -/
def unpatched (s : Summary) :=
  (s.info, s.cwdGeneration, s.previousCwd, s.pendingCwdSwitchReminder, s.createdAt,
    s.parentSessionId, s.forkedAt, s.promptDisplayCwd, s.sessionKind, s.forkContextSource,
    s.forkParentPromptId, s.inheritedPrefixLen, s.hidden, s.sourceWorkspaceDir, s.gitRootDir,
    s.gitRemotes, s.grokHome, s.worktreeLabel, s.sandboxProfile)

theorem applyFields_same :
    ((s.applyFields patch now).generatedTitle, (s.applyFields patch now).titleIsManual,
        (s.applyFields patch now).sessionSummary, (s.applyFields patch now).unpatched) =
      (s.generatedTitle, s.titleIsManual, s.sessionSummary, s.unpatched) := by
  cases s
  rfl

theorem applyPatch_currentModelId :
    (s.applyPatch patch now).1.currentModelId =
      (patch.model.map (·.modelId)).getD s.currentModelId := by
  cases s
  exact applyTitle_same _ currentModelId fun _ _ _ => rfl

theorem applyPatch_agentName :
    (s.applyPatch patch now).1.agentName = (patch.model.bind (·.agentName)).or s.agentName := by
  cases s
  exact applyTitle_same _ agentName fun _ _ _ => rfl

theorem applyPatch_reasoningEffort :
    (s.applyPatch patch now).1.reasoningEffort =
      (patch.model.bind (·.reasoningEffort)).getD s.reasoningEffort := by
  cases s
  exact applyTitle_same _ reasoningEffort fun _ _ _ => rfl

theorem applyPatch_headCommit :
    (s.applyPatch patch now).1.headCommit = (patch.gitHead.map (·.commit)).getD s.headCommit := by
  cases s
  exact applyTitle_same _ headCommit fun _ _ _ => rfl

theorem applyPatch_headBranch :
    (s.applyPatch patch now).1.headBranch = (patch.gitHead.map (·.branch)).getD s.headBranch := by
  cases s
  exact applyTitle_same _ headBranch fun _ _ _ => rfl

theorem applyPatch_collectionId :
    (s.applyPatch patch now).1.collectionId = patch.collectionId.or s.collectionId := by
  cases s
  exact applyTitle_same _ collectionId fun _ _ _ => rfl

theorem applyPatch_generation_max :
    (s.applyPatch patch now).1.cwdSwitchBookkeepingGeneration =
      max s.cwdSwitchBookkeepingGeneration (patch.cwdSwitchBookkeepingGeneration.getD 0) := by
  have hfields : (s.applyFields patch now).cwdSwitchBookkeepingGeneration =
      if s.raises patch.cwdSwitchBookkeepingGeneration then
        patch.cwdSwitchBookkeepingGeneration.getD 0 else s.cwdSwitchBookkeepingGeneration := by
    cases s
    rfl
  have htitle : (s.applyPatch patch now).1.cwdSwitchBookkeepingGeneration =
      (s.applyFields patch now).cwdSwitchBookkeepingGeneration :=
    applyTitle_same _ cwdSwitchBookkeepingGeneration fun _ _ _ => rfl
  rw [htitle, hfields]
  cases patch.cwdSwitchBookkeepingGeneration with
  | none => simp [raises]
  | some generation =>
    by_cases hraise : generation > s.cwdSwitchBookkeepingGeneration
    · rw [if_pos (by simpa [raises] using hraise)]
      exact (max_eq_right hraise.le).symm
    · rw [if_neg (by simpa [raises] using hraise)]
      exact (max_eq_left (not_lt.mp hraise)).symm

theorem applyPatch_generation (h : patch.cwdSwitchBookkeepingGeneration = none) :
    (s.applyPatch patch now).1.cwdSwitchBookkeepingGeneration =
      s.cwdSwitchBookkeepingGeneration := by
  rw [applyPatch_generation_max, h]
  exact Nat.max_zero _

theorem applyPatch_numMessages :
    (s.applyPatch patch now).1.numMessages = countWith patch.messages s.numMessages := by
  cases s
  exact applyTitle_same _ numMessages fun _ _ _ => rfl

theorem applyPatch_numChatMessages_raise :
    (s.applyPatch patch now).1.numChatMessages =
      if s.raises patch.cwdSwitchBookkeepingGeneration ∧ patch.chatMessages = none then
        (countWith patch.chatMessages s.numChatMessages).saturatingAdd ⟨1, by decide⟩
      else countWith patch.chatMessages s.numChatMessages := by
  cases s
  exact applyTitle_same _ numChatMessages fun _ _ _ => rfl

theorem applyPatch_numChatMessages (h : patch.cwdSwitchBookkeepingGeneration = none) :
    (s.applyPatch patch now).1.numChatMessages =
      countWith patch.chatMessages s.numChatMessages := by
  rw [applyPatch_numChatMessages_raise]
  exact if_neg (by simp [h, raises])

theorem applyPatch_chatFormatVersion :
    (s.applyPatch patch now).1.chatFormatVersion =
      (s.applyChatFormatVersion patch.chatFormatVersion).chatFormatVersion := by
  cases s
  exact applyTitle_same _ chatFormatVersion fun _ _ _ => rfl

theorem applyPatch_trace :
    (s.applyPatch patch now).1.trace = s.traceWith patch.traceTurn := by
  cases s
  exact applyTitle_same _ trace fun _ _ _ => rfl

theorem applyPatch_lastActiveAt :
    (s.applyPatch patch now).1.lastActiveAt =
      (s.applyActivity patch.recordActivity now).lastActiveAt := by
  cases s
  exact applyTitle_same _ lastActiveAt fun _ _ _ => rfl

theorem displayTitle_congr {a b : Summary} (htitle : a.generatedTitle = b.generatedTitle)
    (hsummary : a.sessionSummary = b.sessionSummary) : a.displayTitle = b.displayTitle := by
  unfold displayTitle
  rw [htitle, hsummary]

theorem applyTitle_dropped {automatic : Option Text}
    (h : automatic = none ∨ trim s.displayTitle ≠ []) :
    (s.applyTitle none automatic).1 = s := by
  cases automatic with
  | none => rfl
  | some title =>
    have hdisplay : trim s.displayTitle ≠ [] := h.resolve_left (by simp)
    dsimp only [applyTitle]
    rw [if_neg hdisplay]

theorem applyPatch_titles (hmanual : patch.generatedTitle = none)
    (h : patch.generatedTitleIfAbsent = none ∨ trim s.displayTitle ≠ []) :
    (s.applyPatch patch now).1.generatedTitle = s.generatedTitle ∧
      (s.applyPatch patch now).1.titleIsManual = s.titleIsManual ∧
      (s.applyPatch patch now).1.sessionSummary = s.sessionSummary := by
  have hsame := s.applyFields_same patch now
  have hdisplay : (s.applyFields patch now).displayTitle = s.displayTitle :=
    displayTitle_congr (congrArg (·.1) hsame) (congrArg (·.2.2.1) hsame)
  have hdropped : ((s.applyFields patch now).applyTitle patch.generatedTitle
      patch.generatedTitleIfAbsent).1 = s.applyFields patch now := by
    rw [hmanual]
    refine applyTitle_dropped _ ?_
    rwa [hdisplay]
  unfold applyPatch
  dsimp only
  rw [hdropped]
  exact ⟨congrArg (·.1) hsame, congrArg (·.2.1) hsame, congrArg (·.2.2.1) hsame⟩

theorem setTitle_displayTitle {title : Text} (h : trim title ≠ [] ∨ trim s.sessionSummary ≠ []) :
    trim (s.setTitle title).displayTitle ≠ [] := by
  have hdisplay : (s.setTitle title).displayTitle =
      if trim title ≠ [] then trim title else (s.setTitle title).sessionSummary := by
    unfold displayTitle
    by_cases hblank : trim title = [] <;> simp [setTitle, Option.filter, hblank]
  rw [hdisplay]
  by_cases hblank : trim title ≠ []
  · rw [if_pos hblank]
    exact trim_trim_ne_nil hblank
  · have hsummary : trim s.sessionSummary ≠ [] := h.resolve_left hblank
    have hkept : (s.setTitle title).sessionSummary = s.sessionSummary :=
      if_neg fun hnil => hsummary (by rw [hnil]; rfl)
    rw [if_neg hblank, hkept]
    exact hsummary

theorem applyPatch_rename {title : Text} (h : patch.generatedTitle = some title) :
    (s.applyPatch patch now).1.generatedTitle = some title ∧
      (s.applyPatch patch now).1.titleIsManual = true ∧
      (s.applyPatch patch now).1.displayTitle = (s.setTitle title).displayTitle := by
  have hsummary := congrArg (·.2.2.1) (s.applyFields_same patch now)
  have hset : ((s.applyFields patch now).setTitle title).sessionSummary =
      (s.setTitle title).sessionSummary := by
    dsimp only [setTitle] at hsummary ⊢
    rw [hsummary]
  unfold applyPatch
  rw [h]
  exact ⟨rfl, rfl, displayTitle_congr rfl hset⟩

theorem applyPatch_unpatched : (s.applyPatch patch now).1.unpatched = s.unpatched := by
  have htitle : ((s.applyFields patch now).applyTitle patch.generatedTitle
      patch.generatedTitleIfAbsent).1.unpatched = (s.applyFields patch now).unpatched :=
    applyTitle_same _ unpatched fun _ _ _ => rfl
  exact htitle.trans (congrArg (·.2.2.2) (s.applyFields_same patch now))

end Summary

/-! ## Calls of any writers -/

/-- A call of `apply_patch_locked`: the lock orders the calls. -/
structure Call where
  patch : SummaryPatch
  now : DateTime
  fault : Fault

/-- The file behind a sequence of calls. -/
def runCalls (codec : Codec Summary) (disk : Disk) (calls : List Call) : Disk :=
  calls.foldl (fun disk c => (applyPatchLocked codec disk c.patch c.now c.fault).2) disk

/-- The calls that return `Ok` on a readable summary. -/
def applied (calls : List Call) : List Call := calls.filter (·.fault = .none)

def applyAll (s : Summary) (calls : List Call) : Summary :=
  calls.foldl (fun s c => (s.applyPatch c.patch c.now).1) s

/-- The encoding of the summary is not empty and reads back. -/
structure ReadsBack (codec : Codec Summary) (s : Summary) : Prop where
  encode_ne_nil : codec.encode s ≠ []
  decode_encode : codec.decode (codec.encode s) = some s

/-- Every summary that is written reads back. -/
def AllReadBack (codec : Codec Summary) (s : Summary) (calls : List Call) : Prop :=
  ∀ done, done <+: applied calls → ReadsBack codec (applyAll s done)

variable {codec : Codec Summary} {s : Summary}

theorem ReadsBack.readSummary (h : ReadsBack codec s) :
    readSummary codec (some (codec.encode s)) = some s := by
  simp [SessionStore.readSummary, h.encode_ne_nil, h.decode_encode]

/-- A call without a fault returns `Ok` and leaves the patched summary; any
other leaves the file. -/
theorem applyPatchLocked_encode (h : ReadsBack codec s) (c : Call) :
    applyPatchLocked codec (some (codec.encode s)) c.patch c.now c.fault =
      if c.fault = .none then
        (some (s.applyPatch c.patch c.now).2,
          some (codec.encode (s.applyPatch c.patch c.now).1))
      else (none, some (codec.encode s)) := by
  unfold applyPatchLocked readModifyWrite
  rw [h.readSummary]
  cases c.fault <;> rfl

variable {calls : List Call}

theorem runCalls_encode (h : AllReadBack codec s calls) :
    runCalls codec (some (codec.encode s)) calls =
      some (codec.encode (applyAll s (applied calls))) := by
  induction calls generalizing s with
  | nil => rfl
  | cons c calls ih =>
    have hs : ReadsBack codec s := h [] nil_prefix
    rw [runCalls, foldl_cons, applyPatchLocked_encode hs]
    by_cases hfault : c.fault = .none
    · have hc : applied (c :: calls) = c :: applied calls := by simp [applied, hfault]
      rw [if_pos hfault, hc]
      exact ih fun done hdone => h (c :: done) (hc ▸ (prefix_cons_inj c).mpr hdone)
    · have hc : applied (c :: calls) = applied calls := by simp [applied, hfault]
      rw [if_neg hfault, hc]
      exact ih fun done hdone => h done (hc ▸ hdone)

/-! ## The fields after all of them -/

theorem applyAll_cons (s : Summary) (c : Call) (calls : List Call) :
    applyAll s (c :: calls) = applyAll (s.applyPatch c.patch c.now).1 calls := rfl

theorem applyAll_append (s : Summary) (as bs : List Call) :
    applyAll s (as ++ bs) = applyAll (applyAll s as) bs := foldl_append

theorem applyAll_same {β : Type} (π : Summary → β)
    (h : ∀ s, ∀ c ∈ calls, π (s.applyPatch c.patch c.now).1 = π s) (s : Summary) :
    π (applyAll s calls) = π s := by
  induction calls generalizing s with
  | nil => rfl
  | cons c calls ih =>
    rw [applyAll_cons, ih fun s c hc => h s c (mem_cons_of_mem _ hc)]
    exact h s c mem_cons_self

/-- The increment that a part of a patch asks for. -/
def CounterOp.amount : Option CounterOp → Nat
  | some (.increment n) => n
  | _ => 0

/-- A patch without an absolute counter and without a generation. -/
structure SummaryPatch.Independent (patch : SummaryPatch) : Prop where
  messages : ∀ n, patch.messages ≠ some (.set n)
  chatMessages : ∀ n, patch.chatMessages ≠ some (.set n)
  generation : patch.cwdSwitchBookkeepingGeneration = none

theorem countWith_increment {op : Option CounterOp} (h : ∀ n, op ≠ some (.set n)) (n : Usize) :
    (Summary.countWith op n : Nat) = bump usizeMax n (CounterOp.amount op) := by
  match op with
  | none => exact (bump_zero n.2).symm
  | some (.increment k) => rfl
  | some (.set k) => exact absurd rfl (h k)

theorem numMessages_applyAll (s : Summary) (h : ∀ c ∈ calls, c.patch.Independent) :
    ((applyAll s calls).numMessages : Nat) =
      bump usizeMax s.numMessages (calls.map (CounterOp.amount ·.patch.messages)).sum := by
  rw [← foldl_bump s.numMessages.2]
  induction calls generalizing s with
  | nil => rfl
  | cons c calls ih =>
    have hc := (h c mem_cons_self).messages
    rw [applyAll_cons, ih _ fun d hd => h d (mem_cons_of_mem _ hd), map_cons,
      foldl_cons, Summary.applyPatch_numMessages, countWith_increment hc]

theorem numChatMessages_applyAll (s : Summary) (h : ∀ c ∈ calls, c.patch.Independent) :
    ((applyAll s calls).numChatMessages : Nat) =
      bump usizeMax s.numChatMessages (calls.map (CounterOp.amount ·.patch.chatMessages)).sum := by
  rw [← foldl_bump s.numChatMessages.2]
  induction calls generalizing s with
  | nil => rfl
  | cons c calls ih =>
    have hc := h c mem_cons_self
    rw [applyAll_cons, ih _ fun d hd => h d (mem_cons_of_mem _ hd), map_cons,
      foldl_cons, Summary.applyPatch_numChatMessages _ _ _ hc.generation,
      countWith_increment hc.chatMessages]

theorem chatFormatVersion_applyAll (s : Summary) (calls : List Call) :
    (applyAll s calls).chatFormatVersion =
      (calls.filterMap (·.patch.chatFormatVersion)).foldl max s.chatFormatVersion := by
  induction calls generalizing s with
  | nil => rfl
  | cons c calls ih =>
    rw [applyAll_cons, ih, Summary.applyPatch_chatFormatVersion, filterMap_cons]
    unfold Summary.applyChatFormatVersion
    cases c.patch.chatFormatVersion <;> rfl

/-- The write of a turn that a patch asks for. -/
def turnOf (patch : SummaryPatch) : Option (Ranked Nat Text) :=
  patch.traceTurn.map fun turn => ⟨turn.nextTraceTurn, turn.requestId⟩

theorem trace_applyAll (s : Summary) (calls : List Call) :
    (applyAll s calls).trace = (calls.filterMap (turnOf ·.patch)).foldl Ranked.write s.trace := by
  induction calls generalizing s with
  | nil => rfl
  | cons c calls ih =>
    rw [applyAll_cons, ih, Summary.applyPatch_trace, filterMap_cons]
    unfold Summary.traceWith turnOf
    cases c.patch.traceTurn <;> rfl

theorem lastActiveAt_applyPatch (s : Summary) (c : Call) {at_ : DateTime}
    (h : s.lastActiveAt = some at_) :
    ∃ later, (s.applyPatch c.patch c.now).1.lastActiveAt = some later ∧ at_ ≤ later := by
  rw [Summary.applyPatch_lastActiveAt]
  unfold Summary.applyActivity
  dsimp only
  split
  · exact ⟨max at_ c.now, by simp [h], le_max_left _ _⟩
  · exact ⟨at_, h, le_refl _⟩

theorem lastActiveAt_applyAll (s : Summary) (calls : List Call) {at_ : DateTime}
    (h : s.lastActiveAt = some at_) :
    ∃ later, (applyAll s calls).lastActiveAt = some later ∧ at_ ≤ later := by
  induction calls generalizing s at_ with
  | nil => exact ⟨at_, h, le_refl _⟩
  | cons c calls ih =>
    obtain ⟨next, hnext, hle⟩ := lastActiveAt_applyPatch s c h
    obtain ⟨later, hlater, hle'⟩ := ih _ hnext
    exact ⟨later, hlater, hle.trans hle'⟩

/-! ## Titles -/

/-- The title was set by a manual rename, and what is shown of it (the summary
of the session for a blank one) is not blank. -/
structure Summary.ManualTitle (s : Summary) (title : Text) : Prop where
  manual : s.titleIsManual = true
  title_eq : s.generatedTitle = some title
  shown : trim s.displayTitle ≠ []

variable {title : Text}

theorem Summary.ManualTitle.applyPatch (h : s.ManualTitle title) {c : Call}
    (hc : c.patch.generatedTitle = none) : (s.applyPatch c.patch c.now).1.ManualTitle title := by
  obtain ⟨htitle, hmanual, hsummary⟩ := s.applyPatch_titles c.patch c.now hc (Or.inr h.shown)
  refine ⟨hmanual.trans h.manual, htitle.trans h.title_eq, ?_⟩
  rw [displayTitle_congr htitle hsummary]
  exact h.shown

theorem Summary.ManualTitle.applyAll (h : s.ManualTitle title)
    (hcalls : ∀ c ∈ calls, c.patch.generatedTitle = none) : (applyAll s calls).ManualTitle title := by
  induction calls generalizing s with
  | nil => exact h
  | cons c calls ih =>
    exact ih (h.applyPatch (hcalls c mem_cons_self))
      fun d hd => hcalls d (mem_cons_of_mem c hd)

/-! ## All the writers together -/

/-- Every field that no patch names is as it was, `updated_at` apart. A title
names the three fields that show it. -/
structure Unmentioned (calls : List Call) (s s' : Summary) : Prop where
  unpatched : s'.unpatched = s.unpatched
  activity : (∀ c ∈ calls, c.patch.recordActivity = false) → s'.lastActiveAt = s.lastActiveAt
  messages : (∀ c ∈ calls, c.patch.messages = none) → s'.numMessages = s.numMessages
  chatMessages : (∀ c ∈ calls, c.patch.chatMessages = none) →
    s'.numChatMessages = s.numChatMessages
  generation : s'.cwdSwitchBookkeepingGeneration = s.cwdSwitchBookkeepingGeneration
  chatFormatVersion : (∀ c ∈ calls, c.patch.chatFormatVersion = none) →
    s'.chatFormatVersion = s.chatFormatVersion
  traceTurn : (∀ c ∈ calls, c.patch.traceTurn = none) →
    s'.nextTraceTurn = s.nextTraceTurn ∧ s'.requestId = s.requestId
  requestId : (∀ c ∈ calls, (c.patch.traceTurn.bind (·.requestId)) = none) →
    s'.requestId = s.requestId
  model : (∀ c ∈ calls, c.patch.model = none) → s'.currentModelId = s.currentModelId
  agentName : (∀ c ∈ calls, (c.patch.model.bind (·.agentName)) = none) → s'.agentName = s.agentName
  reasoningEffort : (∀ c ∈ calls, (c.patch.model.bind (·.reasoningEffort)) = none) →
    s'.reasoningEffort = s.reasoningEffort
  gitHead : (∀ c ∈ calls, c.patch.gitHead = none) →
    s'.headCommit = s.headCommit ∧ s'.headBranch = s.headBranch
  collectionId : (∀ c ∈ calls, c.patch.collectionId = none) → s'.collectionId = s.collectionId
  title : (∀ c ∈ calls, c.patch.generatedTitle = none ∧ c.patch.generatedTitleIfAbsent = none) →
    s'.generatedTitle = s.generatedTitle ∧ s'.titleIsManual = s.titleIsManual ∧
      s'.sessionSummary = s.sessionSummary

theorem unmentioned_applyAll (s : Summary) (h : ∀ c ∈ calls, c.patch.Independent) :
    Unmentioned calls s (applyAll s calls) where
  unpatched := applyAll_same _ (fun s c _ => s.applyPatch_unpatched c.patch c.now) s
  activity hcalls := applyAll_same _ (fun s c hc => by
    simp [s.applyPatch_lastActiveAt, Summary.applyActivity, hcalls c hc]) s
  messages hcalls := applyAll_same _ (fun s c hc => by
    simp [s.applyPatch_numMessages, Summary.countWith, hcalls c hc]) s
  chatMessages hcalls := applyAll_same _ (fun s c hc => by
    simp [s.applyPatch_numChatMessages _ _ (h c hc).generation, Summary.countWith,
      hcalls c hc]) s
  generation := applyAll_same _ (fun s c hc => s.applyPatch_generation _ _ (h c hc).generation) s
  chatFormatVersion hcalls := applyAll_same _ (fun s c hc => by
    simp [s.applyPatch_chatFormatVersion, Summary.applyChatFormatVersion, hcalls c hc]) s
  traceTurn hcalls := by
    have htrace : (applyAll s calls).trace = s.trace :=
      applyAll_same _ (fun s c hc => by
        simp [s.applyPatch_trace, Summary.traceWith, hcalls c hc]) s
    exact ⟨congrArg (·.rank) htrace, congrArg (·.value) htrace⟩
  requestId hcalls := applyAll_same (·.trace.value) (fun s c hc => by
    have hc := hcalls c hc
    rw [s.applyPatch_trace]
    unfold Summary.traceWith
    split
    · rfl
    · next turn hturn =>
      have hid : turn.requestId = none := by simpa [hturn] using hc
      split <;> simp [Summary.trace, hid]) s
  model hcalls := applyAll_same _ (fun s c hc => by
    simp [s.applyPatch_currentModelId, hcalls c hc]) s
  agentName hcalls := applyAll_same _ (fun s c hc => by
    simp [s.applyPatch_agentName, hcalls c hc]) s
  reasoningEffort hcalls := applyAll_same _ (fun s c hc => by
    simp [s.applyPatch_reasoningEffort, hcalls c hc]) s
  gitHead hcalls := by
    refine ⟨applyAll_same _ (fun s c hc => ?_) s, applyAll_same _ (fun s c hc => ?_) s⟩
    · simp [s.applyPatch_headCommit, hcalls c hc]
    · simp [s.applyPatch_headBranch, hcalls c hc]
  collectionId hcalls := applyAll_same _ (fun s c hc => by
    simp [s.applyPatch_collectionId, hcalls c hc]) s
  title hcalls := by
    have hstep := fun (s : Summary) c (hc : c ∈ calls) =>
      s.applyPatch_titles c.patch c.now (hcalls c hc).1 (Or.inl (hcalls c hc).2)
    exact ⟨applyAll_same _ (fun s c hc => (hstep s c hc).1) s,
      applyAll_same _ (fun s c hc => (hstep s c hc).2.1) s,
      applyAll_same _ (fun s c hc => (hstep s c hc).2.2) s⟩

/-- What `s'` is behind the calls on `s`, in terms of the calls. -/
structure Merged (s : Summary) (calls : List Call) (s' : Summary) : Prop where
  messages : (s'.numMessages : Nat) =
    min (s.numMessages + (calls.map (CounterOp.amount ·.patch.messages)).sum) usizeMax
  chatMessages : (s'.numChatMessages : Nat) =
    min (s.numChatMessages + (calls.map (CounterOp.amount ·.patch.chatMessages)).sum) usizeMax
  chatFormatVersion : IsGreatest
    {v | v = s.chatFormatVersion ∨ ∃ c ∈ calls, c.patch.chatFormatVersion = some v}
    s'.chatFormatVersion
  nextTraceTurn : IsGreatest
    {t | t = s.nextTraceTurn ∨ ∃ c ∈ calls, c.patch.traceTurn.map (·.nextTraceTurn) = some t}
    s'.nextTraceTurn
  /-- At no moment does the time of the last activity go back. -/
  lastActiveAt : ∀ done rest, calls = done ++ rest → ∀ t, (applyAll s done).lastActiveAt = some t →
    ∃ t', s'.lastActiveAt = some t' ∧ t ≤ t'
  /-- The highest turn of a patch, when no turn before was higher and a patch of that turn has a
  request id, decides the request id. -/
  requestId : ∀ top,
    IsGreatest {t | ∃ c ∈ calls, c.patch.traceTurn.map (·.nextTraceTurn) = some t} top →
    s.nextTraceTurn ≤ top →
    (∃ c ∈ calls, ∃ id, c.patch.traceTurn = some ⟨top, some id⟩) →
    ∃ c ∈ calls, ∃ id, c.patch.traceTurn = some ⟨top, some id⟩ ∧ s'.requestId = some id
  /-- A manual title stays until the next rename. -/
  manualTitle : ∀ done rest title, calls = done ++ rest → (applyAll s done).ManualTitle title →
    (∀ c ∈ rest, c.patch.generatedTitle = none) → s'.ManualTitle title
  /-- A rename sets a manual title, also to a blank one over a summary that is not. -/
  rename : ∀ done c rest title, calls = done ++ c :: rest → c.patch.generatedTitle = some title →
    trim title ≠ [] ∨ trim (applyAll s done).sessionSummary ≠ [] →
      (applyAll s (done ++ [c])).ManualTitle title
  unmentioned : Unmentioned calls s s'
  /-- The counters and the high-water marks do not depend on the order. -/
  order : ∀ others, others.Perm calls →
    (applyAll s others).numMessages = s'.numMessages ∧
      (applyAll s others).numChatMessages = s'.numChatMessages ∧
      (applyAll s others).chatFormatVersion = s'.chatFormatVersion ∧
      (applyAll s others).nextTraceTurn = s'.nextTraceTurn

theorem isGreatest_chatFormatVersion (s : Summary) (calls : List Call) :
    IsGreatest {v | v = s.chatFormatVersion ∨ ∃ c ∈ calls, c.patch.chatFormatVersion = some v}
      (applyAll s calls).chatFormatVersion := by
  rw [chatFormatVersion_applyAll]
  simpa only [mem_filterMap] using
    isGreatest_foldl_max s.chatFormatVersion (calls.filterMap (·.patch.chatFormatVersion))

theorem isGreatest_nextTraceTurn (s : Summary) (calls : List Call) :
    IsGreatest
      {t | t = s.nextTraceTurn ∨ ∃ c ∈ calls, c.patch.traceTurn.map (·.nextTraceTurn) = some t}
      (applyAll s calls).nextTraceTurn := by
  have hrank : (applyAll s calls).nextTraceTurn =
      ((calls.filterMap (turnOf ·.patch)).map (·.rank)).foldl max s.nextTraceTurn := by
    have htrace := congrArg (·.rank) (trace_applyAll s calls)
    rw [Ranked.rank_foldl_write] at htrace
    exact htrace
  have hturns : (calls.filterMap (turnOf ·.patch)).map (·.rank) =
      calls.filterMap (·.patch.traceTurn.map (·.nextTraceTurn)) := by
    rw [map_filterMap]
    refine congrArg (calls.filterMap ·) (funext fun c => ?_)
    unfold turnOf
    rw [Option.map_map]
    rfl
  rw [hrank, hturns]
  simpa only [mem_filterMap] using isGreatest_foldl_max s.nextTraceTurn
    (calls.filterMap (·.patch.traceTurn.map (·.nextTraceTurn)))

theorem mem_turns {w : Ranked Nat Text} :
    w ∈ calls.filterMap (turnOf ·.patch) ↔
      ∃ c ∈ calls, c.patch.traceTurn = some ⟨w.rank, w.value⟩ := by
  rw [mem_filterMap]
  refine exists_congr fun c => and_congr_right fun _ => ?_
  unfold turnOf
  rw [Option.map_eq_some_iff]
  constructor
  · rintro ⟨turn, hturn, rfl⟩
    exact hturn
  · exact fun h => ⟨_, h, rfl⟩

theorem requestId_applyAll (s : Summary) (calls : List Call) {top : Nat}
    (htop : IsGreatest {t | ∃ c ∈ calls, c.patch.traceTurn.map (·.nextTraceTurn) = some t} top)
    (hs : s.nextTraceTurn ≤ top)
    (hid : ∃ c ∈ calls, ∃ id, c.patch.traceTurn = some ⟨top, some id⟩) :
    ∃ c ∈ calls, ∃ id, c.patch.traceTurn = some ⟨top, some id⟩ ∧
      (applyAll s calls).requestId = some id := by
  obtain ⟨c, hc, id, hturn⟩ := hid
  have hle : ∀ w ∈ calls.filterMap (turnOf ·.patch), w.rank ≤ top := by
    intro w hw
    obtain ⟨d, hd, hdturn⟩ := mem_turns.mp hw
    exact htop.2 ⟨d, hd, by rw [hdturn]; rfl⟩
  obtain ⟨w, hw, hrank, hsome, hvalue⟩ := Ranked.value_foldl_write (r := s.trace) hs hle
    ⟨⟨top, some id⟩, mem_turns.mpr ⟨c, hc, hturn⟩, rfl, rfl⟩
  obtain ⟨d, hd, hdturn⟩ := mem_turns.mp hw
  obtain ⟨id', hid'⟩ := Option.isSome_iff_exists.mp hsome
  refine ⟨d, hd, id', by rw [hdturn, hrank, hid'], ?_⟩
  have htrace := congrArg (·.value) (trace_applyAll s calls)
  exact htrace.trans (hvalue.trans hid')

theorem order_applyAll (s : Summary) {others : List Call} (h : ∀ c ∈ calls, c.patch.Independent)
    (hperm : others.Perm calls) :
    (applyAll s others).numMessages = (applyAll s calls).numMessages ∧
      (applyAll s others).numChatMessages = (applyAll s calls).numChatMessages ∧
      (applyAll s others).chatFormatVersion = (applyAll s calls).chatFormatVersion ∧
      (applyAll s others).nextTraceTurn = (applyAll s calls).nextTraceTurn := by
  have h' : ∀ c ∈ others, c.patch.Independent := fun c hc => h c (hperm.mem_iff.mp hc)
  refine ⟨Subtype.ext ?_, Subtype.ext ?_, ?_, ?_⟩
  · rw [numMessages_applyAll s h, numMessages_applyAll s h', (hperm.map _).sum_eq]
  · rw [numChatMessages_applyAll s h, numChatMessages_applyAll s h', (hperm.map _).sum_eq]
  · have hothers := isGreatest_chatFormatVersion s others
    simp only [hperm.mem_iff] at hothers
    exact hothers.unique (isGreatest_chatFormatVersion s calls)
  · have hothers := isGreatest_nextTraceTurn s others
    simp only [hperm.mem_iff] at hothers
    exact hothers.unique (isGreatest_nextTraceTurn s calls)

theorem merged_applyAll (s : Summary) (h : ∀ c ∈ calls, c.patch.Independent) :
    Merged s calls (applyAll s calls) where
  messages := numMessages_applyAll s h
  chatMessages := numChatMessages_applyAll s h
  chatFormatVersion := isGreatest_chatFormatVersion s calls
  nextTraceTurn := isGreatest_nextTraceTurn s calls
  lastActiveAt done rest hsplit t ht := by
    rw [hsplit, applyAll_append]
    exact lastActiveAt_applyAll _ rest ht
  requestId top htop hs hid := requestId_applyAll s calls htop hs hid
  manualTitle done rest title hsplit htitle hrest := by
    rw [hsplit, applyAll_append]
    exact htitle.applyAll hrest
  rename done c rest title hsplit hc hblank := by
    rw [applyAll_append]
    obtain ⟨htitle, hmanual, hdisplay⟩ := (applyAll s done).applyPatch_rename c.patch c.now hc
    refine ⟨hmanual, htitle, ?_⟩
    rw [show (applyAll (applyAll s done) [c]).displayTitle = _ from hdisplay]
    exact (applyAll s done).setTitle_displayTitle hblank
  unmentioned := unmentioned_applyAll s h
  order others hperm := order_applyAll s h hperm

/-- However the calls of the writers are ordered, and whichever of them fail,
the summary in the file is the one that the successful patches merge to. -/
theorem patches_merge {codec : Codec Summary} {s : Summary} {calls : List Call}
    (hcodec : AllReadBack codec s calls) (h : ∀ c ∈ calls, c.patch.Independent) :
    ∃ s', readSummary codec (runCalls codec (some (codec.encode s)) calls) = some s' ∧
      Merged s (applied calls) s' := by
  refine ⟨applyAll s (applied calls), ?_, ?_⟩
  · rw [runCalls_encode hcodec]
    exact (hcodec _ (prefix_refl _)).readSummary
  · exact merged_applyAll s fun c hc => h c (mem_of_mem_filter hc)

def newSummary : Summary where
  info := ⟨"s".toList, "/w".toList⟩
  sessionSummary := []
  createdAt := 0
  updatedAt := 0
  numMessages := ⟨0, by decide⟩
  numChatMessages := ⟨0, by decide⟩
  currentModelId := "m".toList
  chatFormatVersion := 1

/-- One second behind the epoch. -/
def oneSecond : DateTime := 1000000000

def blankRename : Call := ⟨{ generatedTitle := some " ".toList }, oneSecond, .none⟩

def autoTitle : Call := ⟨{ generatedTitleIfAbsent := some "T".toList }, oneSecond, .none⟩

/-- The title of a rename that is blank gives way to an automatic title. -/
theorem blank_rename_replaced :
    (applyAll newSummary [blankRename]).titleIsManual = true ∧
      (applyAll newSummary [blankRename]).generatedTitle = some " ".toList ∧
      (applyAll newSummary [blankRename, autoTitle]).titleIsManual = false ∧
      (applyAll newSummary [blankRename, autoTitle]).generatedTitle = some "T".toList := by
  decide

/-! ## Calls on a file -/

/-- A time of whole seconds, in the first ten of the epoch. -/
def timeText (t : DateTime) : Text :=
  "\"1970-01-01T00:00:0".toList ++ Nat.toDigits 10 (t / oneSecond).toNat ++ "Z\"".toList

def fieldText (name : String) (value : Text) : Text :=
  ",\n  \"".toList ++ name.toList ++ "\": ".toList ++ value

def quotedText (value : Text) : Text := "\"".toList ++ value ++ "\"".toList

/-- A summary as `to_vec_pretty` writes it, when the optional fields but for
these are left out and no text has a character to escape. -/
def summaryText (s : Summary) : Text :=
  "\x7b\n  \"info\": \x7b\n    \"id\": ".toList ++ quotedText s.info.id ++
    ",\n    \"cwd\": ".toList ++ quotedText s.info.cwd ++ "\n  \x7d".toList ++
    fieldText "session_summary" (quotedText s.sessionSummary) ++
    fieldText "created_at" (timeText s.createdAt) ++
    fieldText "updated_at" (timeText s.updatedAt) ++
    fieldText "num_messages" (Nat.toDigits 10 s.numMessages) ++
    fieldText "num_chat_messages" (Nat.toDigits 10 s.numChatMessages) ++
    fieldText "current_model_id" (quotedText s.currentModelId) ++
    fieldText "next_trace_turn" (Nat.toDigits 10 s.nextTraceTurn) ++
    fieldText "chat_format_version" (Nat.toDigits 10 s.chatFormatVersion) ++
    (s.requestId.map (fieldText "request_id" <| quotedText ·)).getD [] ++
    (s.lastActiveAt.map (fieldText "last_active_at" <| timeText ·)).getD [] ++
    (s.generatedTitle.map (fieldText "generated_title" <| quotedText ·)).getD [] ++
    (if s.titleIsManual then fieldText "title_is_manual" "true".toList else []) ++ "\n\x7d".toList

/-- The codec on the summaries that the calls write. -/
def callsCodec (calls : List Call) : Codec Summary where
  encode s := utf8Bytes (summaryText s)
  decode bytes := ((applied calls).inits.map (applyAll newSummary)).find? fun s =>
    utf8Bytes (summaryText s) = bytes

instance (codec : Codec Summary) (s : Summary) : Decidable (ReadsBack codec s) :=
  decidable_of_iff (codec.encode s ≠ [] ∧ codec.decode (codec.encode s) = some s)
    ⟨fun h => ⟨h.1, h.2⟩, fun h => ⟨h.encode_ne_nil, h.decode_encode⟩⟩

def turnMessage (turn : Nat) (requestId : Text) (now : DateTime) : Call where
  patch :=
    { recordActivity := true, messages := some (.increment ⟨1, one_le_usizeMax⟩),
      traceTurn := some ⟨turn, some requestId⟩ }
  now := now
  fault := .none

def rename (now : DateTime) (fault : Fault) : Call :=
  ⟨{ generatedTitle := some "A".toList }, now, fault⟩

/-- The second turn arrives in front of the first, the first rename fails, and
an automatic title comes behind the second. -/
def severalCalls : List Call :=
  [turnMessage 2 "r2".toList (2 * oneSecond), rename (3 * oneSecond) .write,
    turnMessage 1 "r1".toList oneSecond, rename (4 * oneSecond) .none, autoTitle]

theorem patches_merge_severalCalls :
    ∃ s', readSummary (callsCodec severalCalls)
        (runCalls (callsCodec severalCalls) (some ((callsCodec severalCalls).encode newSummary))
          severalCalls) = some s' ∧
      Merged newSummary (applied severalCalls) s' := by
  have hread : AllReadBack (callsCodec severalCalls) newSummary severalCalls := by
    have hall : ∀ done ∈ (applied severalCalls).inits,
        ReadsBack (callsCodec severalCalls) (applyAll newSummary done) := by
      decide +kernel
    exact fun done hdone => hall done ((mem_inits done _).mpr hdone)
  have hindependent : ∀ c ∈ severalCalls, c.patch.Independent := by
    intro c hc
    simp only [severalCalls, mem_cons, not_mem_nil, or_false] at hc
    rcases hc with rfl | rfl | rfl | rfl | rfl <;>
      exact ⟨by simp [turnMessage, rename, autoTitle], by simp [turnMessage, rename, autoTitle], rfl⟩
  exact patches_merge hread hindependent

end GrokBuild.SessionStore
