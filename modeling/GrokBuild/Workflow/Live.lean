import GrokBuild.Workflow.Told

/-!
# Workflows: calls at the end of the journal

What a host function leaves when the journal does not tell the call: a result
that the journal tells from then on, the end of the run, or a fatal error.
Two kinds of answers are left out (`Env.kept`): the ones that a script can
catch and that are not journaled.
-/

namespace GrokBuild.Workflow

open TextLines Str LineLog Replay List Option

/-! ## The condition -/

/-- The failures of a reservation that a script can catch. -/
def HostError.catchable : HostError → Bool
  | .unsupported _ => true
  | .failed _ => true
  | _ => false

/-- The failure of a call that `host_call` neither journals nor ends the run
with. -/
def HostError.quota : HostError → Bool
  | .agentCallQuotaExceeded _ _ => true
  | _ => false

/-- The answer is not such an error. -/
def spares {α : Type} (bad : HostError → Bool) : Except HostError α → Bool
  | .ok _ => true
  | .error e => !bad e

/-- No answer to the call, as far as it is asked for, is lost on replay: a
reservation does not fail with an error to catch, and a `host_call` does not
fail with a quota. -/
def Env.kept (env : Env) (ctx : Ctx) : HostCall → Bool
  | .agent _ =>
    ctx.replaying || (spares HostError.catchable env.reserve && spares HostError.quota (env.agent 0))
  | .parallel items =>
    items.length > maxParallel || ctx.seq + items.length ≤ ctx.journal.entries.length
      || spares HostError.catchable env.reserve
  | .host kind _ => ctx.replaying || spares HostError.quota (env.reply kind)
  | _ => true

/-! ## Values that are no markers -/

theorem replayHostError_toJson (r : AgentResult) : replayHostError r.toJson = none := rfl

theorem plain_toJson (r : AgentResult) : r.toJson.plain = true := rfl

theorem replayHostError_reply {env : Env} {kind : HostKind} {v : Json}
    (h : env.reply kind = .ok v) : replayHostError v = none := by
  cases kind with
  | budget =>
    cases hbudget : env.budget with
    | ok b =>
      simp only [Env.reply, hbudget, Except.map] at h
      cases h
      rfl
    | error e => simp [Env.reply, hbudget, Except.map] at h
  | renderTemplate | writeScratchFile | readScratchFile | gitDiffSince =>
    cases htext : env.text with
    | ok s =>
      simp only [Env.reply, htext, Except.map] at h
      cases h
      rfl
    | error e => simp [Env.reply, htext, Except.map] at h

/-! ## Recording at the end -/

/-- The errors of the journal that a replay must not meet. -/
def JournalError.ofReplay : JournalError → Bool
  | .divergence _ _ => true
  | .sequence _ _ _ => true
  | _ => false

def FatalCause.ofReplay : FatalCause → Bool
  | .journal e => e.ofReplay
  | _ => false

/-- What is left of the entries: dense, and within the limit of calls. -/
structure Sound (entries : List JournalEntry) : Prop where
  dense : Dense entries
  capped : entries.length ≤ maxHostCalls

theorem sound_append {entries : List JournalEntry} (h : Sound entries)
    (hlt : entries.length < maxHostCalls) {e : JournalEntry} (hseq : e.seq = entries.length) :
    Sound (entries ++ [e]) where
  dense := dense_append.mpr ⟨h.dense, hseq⟩
  capped := by
    rw [length_append, length_singleton]
    omega

section Live

variable {codec : Codec JournalEntry} {requestHash : Text → Json → Text} {ctx : Ctx} {env : Env}

/-- At its end a journal takes the entry, or the limit or the file does not
let it. -/
theorem record_end {kind hash : Text} {value : Json} {now : Nat} {write : Write} :
    (∃ ctx', ctx.record codec ctx.journal.entries.length kind hash value now write = .ok ctx' ∧
      ctx'.journal.entries =
        ctx.journal.entries ++ [⟨ctx.journal.entries.length, kind, hash, value, now⟩] ∧
      ctx'.seq = ctx.seq) ∨
    ∃ e, ctx.record codec ctx.journal.entries.length kind hash value now write = .error e ∧
      e.ofReplay = false := by
  simp only [Ctx.record, Journal.record, validateSequence, ne_eq, not_true_eq_false, if_false]
  by_cases hfull : saturatingAdd ctx.journal.bytes (codec.line
      ⟨ctx.journal.entries.length, kind, hash, value, now⟩).length > maxJournalBytes
  · exact .inr ⟨_, by rw [if_pos hfull], rfl⟩
  · rw [if_neg hfull]
    by_cases hpath : ctx.journal.path = true
    · rw [if_pos hpath]
      cases write with
      | done => exact .inl ⟨_, rfl, rfl, rfl⟩
      | fails written => exact .inr ⟨_, rfl, rfl⟩
    · rw [if_neg hpath]
      exact .inl ⟨_, rfl, rfl, rfl⟩

/-! ## How a live call ends -/

/-- The context and the end that a call leaves when the journal ended in front
of it: `tells` and `awaits` leave a longer journal that tells the call. -/
inductive Lives (requestHash : Text → Json → Text) (ctx : Ctx) (c : HostCall) (ctx' : Ctx) :
    CallEnd → Prop
  | tells {s : Seen} (hgrown : ctx.journal.entries <+: ctx'.journal.entries)
      (hsound : Sound ctx'.journal.entries) (hlast : ctx'.seq = ctx'.journal.entries.length)
      (htold : toldCall requestHash ctx'.journal.entries ctx.seq c = some (s, ctx'.seq)) :
      Lives requestHash ctx c ctx' (.seen s)
  | awaits {kind : PauseKind} {message : Text}
      (hgrown : ctx.journal.entries <+: ctx'.journal.entries)
      (hsound : Sound ctx'.journal.entries)
      (htold : toldCall requestHash ctx'.journal.entries ctx.seq c =
        some (.unit, ctx'.journal.entries.length)) :
      Lives requestHash ctx c ctx' (.ended (.pause kind message))
  | stops {token : ControlToken} (hsame : ctx'.journal.entries = ctx.journal.entries)
      (htoken : ∀ cause, token ≠ .fatal cause) : Lives requestHash ctx c ctx' (.ended token)
  | fails {cause : FatalCause} (hgrown : ctx.journal.entries <+: ctx'.journal.entries)
      (hcause : cause.ofReplay = false) : Lives requestHash ctx c ctx' (.ended (.fatal cause))

theorem lives_recordSeen (hsound : Sound ctx.journal.entries)
    (hseq : ctx.seq = ctx.journal.entries.length) (hcap : ctx.seq < maxHostCalls)
    {c : HostCall} {kind hash : Text} {value : Json}
    (hc : ∀ entries v, told entries ctx.seq kind hash = some v →
      toldCall requestHash entries ctx.seq c = some (seenOf v, ctx.seq + 1))
    (now : Nat) (write : Write) (requests : List Request) :
    let called := recordSeen codec { ctx with seq := ctx.seq + 1 } ctx.seq kind hash value
      (seenOf value) now write requests
    Lives requestHash ctx c called.ctx called.callEnd := by
  have hrecord := @record_end codec { ctx with seq := ctx.seq + 1 } kind hash value now write
  simp only [← hseq] at hrecord
  simp only [recordSeen]
  rcases hrecord with ⟨ctx', hok, hentries, hseq'⟩ | ⟨e, herror, hclean⟩
  · simp only [hok]
    refine .tells (hentries ▸ prefix_append _ _) ?_ ?_ ?_
    · rw [hentries]
      exact sound_append hsound (hseq ▸ hcap) hseq
    · rw [hseq', hentries, length_append, length_singleton, ← hseq]
    · rw [hseq', hentries]
      refine hc _ value ?_
      have htold := told_append ctx.journal.entries kind hash value now
      rw [← hseq] at htold
      exact htold
  · simp only [herror]
    exact .fails prefix_rfl hclean

theorem lives_tooMany {c : HostCall} (h : ¬ ctx.seq < maxHostCalls) :
    ctx.nextSeq = .error .tooManyHostCalls ∧
      Lives requestHash ctx c ctx (.ended (.fatal .tooManyHostCalls)) :=
  ⟨by rw [Ctx.nextSeq, if_pos (by omega)], .fails prefix_rfl rfl⟩

theorem lives_hostCall (hsound : Sound ctx.journal.entries)
    (hseq : ctx.seq = ctx.journal.entries.length) {c : HostCall} {kind : Text} {payload : Json}
    (hc : ∀ entries v, told entries ctx.seq kind (requestHash kind payload) = some v →
      toldCall requestHash entries ctx.seq c = some (seenOf v, ctx.seq + 1))
    (request : Request) {reply : Except HostError Json}
    (hvalue : ∀ v, reply = .ok v → replayHostError v = none)
    (hkept : spares HostError.quota reply = true) :
    let called := hostCall codec requestHash env ctx kind payload request reply
    Lives requestHash ctx c called.ctx called.callEnd := by
  by_cases hcap : ctx.seq < maxHostCalls
  · -- the journal does not cover the call, and so the host is asked
    have hend := @replay_end ctx.journal ctx.seq (by omega) kind (requestHash kind payload)
    simp only [hostCall, nextSeq_ok hcap, hend]
    cases reply with
    | ok v =>
      have hseen : seenOf v = .value v := by rw [seenOf, hvalue v rfl]
      have hlives := @lives_recordSeen codec requestHash ctx hsound hseq hcap c kind _ v hc
        (env.now 0) (env.write 0) [request]
      rw [hseen] at hlives
      exact hlives
    | error e =>
      -- journaled as an error, or the end of the run; the third kind is left out
      cases e with
      | agentCallQuotaExceeded requested maximum => cases hkept
      | budgetExceeded =>
        refine .stops rfl ?_
        intro cause hfatal
        cases hfatal
      | cancelled =>
        refine .stops rfl ?_
        intro cause hfatal
        cases hfatal
      | unsupported message => exact lives_recordSeen hsound hseq hcap hc _ _ _
      | failed message => exact lives_recordSeen hsound hseq hcap hc _ _ _
  · obtain ⟨herror, hlives⟩ := @lives_tooMany requestHash ctx c hcap
    simp only [hostCall, herror]
    exact hlives

theorem reserve_kept {count : Nat} (hkept : spares HostError.catchable env.reserve = true) :
    (∃ requests, reserveAgentCalls env count = (requests, none)) ∨
      ∃ requests token, reserveAgentCalls env count = (requests, some (.ended token)) ∧
        ∀ cause, token ≠ .fatal cause := by
  unfold reserveAgentCalls
  split
  · exact .inl ⟨_, rfl⟩
  · cases hreserve : env.reserve with
    | ok u => exact .inl ⟨_, rfl⟩
    | error e =>
      rw [hreserve] at hkept
      cases e with
      | agentCallQuotaExceeded requested maximum => exact .inr ⟨_, _, rfl, nofun⟩
      | budgetExceeded => exact .inr ⟨_, _, rfl, nofun⟩
      | cancelled => exact .inr ⟨_, _, rfl, nofun⟩
      | unsupported message => cases hkept
      | failed message => cases hkept

theorem lives_spawnAgentCall (hsound : Sound ctx.journal.entries)
    (hseq : ctx.seq = ctx.journal.entries.length) {opts : Json}
    (hreserve : spares HostError.catchable env.reserve = true)
    (hagent : spares HostError.quota (env.agent 0) = true) :
    let called := spawnAgentCall codec requestHash env ctx opts
    Lives requestHash ctx (.agent opts) called.ctx called.callEnd := by
  have hcall := @lives_hostCall codec requestHash ctx env hsound hseq (.agent opts) spawnAgent opts
    (by
      intro entries v hv
      simp [toldCall, HostCall.immediate, hv])
    (.spawnAgent opts) ((env.agent 0).map AgentResult.toJson)
    (by
      intro v hv
      cases hagent' : env.agent 0 with
      | ok r =>
        rw [hagent'] at hv
        cases hv
        exact replayHostError_toJson r
      | error e =>
        rw [hagent'] at hv
        cases hv)
    (by
      cases hagent' : env.agent 0 with
      | ok r => rfl
      | error e =>
        rw [hagent'] at hagent
        exact hagent)
  have hend := @replay_end ctx.journal ctx.seq (by omega) spawnAgent (requestHash spawnAgent opts)
  simp only [spawnAgentCall, hend]
  rcases @reserve_kept env 1 hreserve with ⟨requests, hok⟩ | ⟨requests, token, hfail, htoken⟩
  · -- the release behind a call that is not journaled is a request, and no more
    simp only [hok]
    exact hcall
  · simp only [hfail]
    exact .stops rfl htoken

theorem lives_awaitUserCall (hsound : Sound ctx.journal.entries)
    (hseq : ctx.seq = ctx.journal.entries.length) {kind message : Text}
    (hkind : PauseKind.parse kind ≠ none) :
    let called := awaitUserCall codec requestHash env ctx kind message
    Lives requestHash ctx (.awaitUser kind message) called.ctx called.callEnd := by
  obtain ⟨parsed, hparsed⟩ := ne_none_iff_exists'.mp hkind
  simp only [awaitUserCall, hparsed]
  by_cases hcap : ctx.seq < maxHostCalls
  · have hend := @replay_end ctx.journal ctx.seq (by omega) awaitUser
      (requestHash awaitUser (awaitPayload kind message))
    have hrecord := @record_end codec { ctx with seq := ctx.seq + 1 } awaitUser
      (requestHash awaitUser (awaitPayload kind message)) .null (env.now 0) (env.write 0)
    simp only [← hseq] at hrecord
    simp only [nextSeq_ok hcap, hend]
    rcases hrecord with ⟨ctx', hok, hentries, _⟩ | ⟨e, herror, hclean⟩
    · simp only [hok]
      refine .awaits (hentries ▸ prefix_append _ _) ?_ ?_
      · rw [hentries]
        exact sound_append hsound (hseq ▸ hcap) hseq
      · have htold := told_append ctx.journal.entries awaitUser
          (requestHash awaitUser (awaitPayload kind message)) .null (env.now 0)
        rw [← hseq] at htold
        rw [hentries, toldCall, HostCall.immediate, if_neg hkind]
        simp only [htold, map_some, length_append, length_singleton, ← hseq]
    · simp only [herror]
      exact .fails prefix_rfl hclean
  · obtain ⟨herror, hlives⟩ := @lives_tooMany requestHash ctx (.awaitUser kind message) hcap
    simp only [herror]
    exact hlives

/-! ### Panels -/

/-- The value that a live item of a panel is journaled with. -/
def liveValue : Except HostError AgentResult → Json
  | .ok r => r.toJson
  | .error .budgetExceeded => hostTerminalSentinel terminalBudget
  | .error .cancelled => hostTerminalSentinel terminalCancelled
  | .error _ => .null

/-- The live items of a panel, from item `i` on. -/
def livePending (requestHash : Text → Json → Text) (env : Env) :
    Nat → Nat → List Json → List PendingAgent
  | _, _, [] => []
  | i, seq, opts :: rest =>
    .live seq (requestHash spawnAgent opts) (env.agent i)
      :: livePending requestHash env (i + 1) (seq + 1) rest

def liveResolved (requestHash : Text → Json → Text) (env : Env) :
    Nat → Nat → List Json → List (Option (Nat × Text) × Json)
  | _, _, [] => []
  | i, seq, opts :: rest =>
    (some (seq, requestHash spawnAgent opts), liveValue (env.agent i))
      :: liveResolved requestHash env (i + 1) (seq + 1) rest

theorem countLive_end {j : Journal} {seq : Nat} (h : j.entries.length ≤ seq) (items : List Json) :
    countLive requestHash j seq items = .ok items.length := by
  induction items generalizing seq with
  | nil => rfl
  | cons opts rest ih =>
    simp [countLive, replay_end h, ih (Nat.le_succ_of_le h)]

theorem startPanel_end (h : ctx.journal.entries.length ≤ ctx.seq) (i : Nat) (items : List Json) :
    (∃ requests, startPanel requestHash env i ctx items =
        ({ ctx with seq := ctx.seq + items.length }, requests,
          .ok (livePending requestHash env i ctx.seq items)) ∧
      (ctx.seq ≤ maxHostCalls → ctx.seq + items.length ≤ maxHostCalls)) ∨
    ∃ ctx' requests, startPanel requestHash env i ctx items =
        (ctx', requests, .error .tooManyHostCalls) ∧ ctx'.journal = ctx.journal := by
  induction items generalizing ctx i with
  | nil => exact .inl ⟨[], rfl, id⟩
  | cons opts rest ih =>
    by_cases hcap : ctx.seq < maxHostCalls
    · have hend := @replay_end ctx.journal ctx.seq h spawnAgent (requestHash spawnAgent opts)
      rcases @ih { ctx with seq := ctx.seq + 1 } (Nat.le_succ_of_le h) (i + 1) with
        ⟨requests, hok, hfits⟩ | ⟨ctx', requests, herror, hjournal⟩
      · refine .inl ⟨.spawnAgent opts :: requests, ?_, fun _ => ?_⟩
        · simp only [startPanel, nextSeq_ok hcap, hend, hok]
          simp [Except.map, livePending, Nat.add_assoc, Nat.add_comm 1]
        · have hfits' : ctx.seq + 1 + rest.length ≤ maxHostCalls := hfits (by show _ + 1 ≤ _; omega)
          rw [length_cons]
          omega
      · refine .inr ⟨ctx', .spawnAgent opts :: requests, ?_, hjournal⟩
        simp only [startPanel, nextSeq_ok hcap, hend, herror]
        rfl
    · obtain ⟨herror, _⟩ := @lives_tooMany requestHash ctx .emit hcap
      exact .inr ⟨ctx, [], by simp only [startPanel, herror], rfl⟩

/-- The loop over the answers of live items: no error to catch, and markers
only when the panel is not journaled. -/
structure Panel.Live (p : Panel) : Prop where
  noError : p.terminalError = none
  kind : if p.resumable then p.terminalKind = some terminalBudget ∨
      p.terminalKind = some terminalCancelled else p.terminalKind = none
  plain : p.resumable = false → ∀ r ∈ p.resolved, r.2.plain = true

theorem Panel.live_start : Panel.start.Live := ⟨rfl, rfl, by simp [Panel.start]⟩

theorem Panel.Live.resolve {p : Panel} (h : p.Live) (seq : Nat) (hash : Text)
    (reply : Except HostError AgentResult) :
    (p.resolve (.live seq hash reply)).Live ∧
      (p.resolve (.live seq hash reply)).resolved =
        p.resolved ++ [(some (seq, hash), liveValue reply)] := by
  have hpush : ∀ v : Json, v.plain = true → (p.push (some (seq, hash)) v).Live := by
    intro v hv
    refine ⟨h.noError, h.kind, fun hres r hr => ?_⟩
    rcases mem_append.mp hr with hr | hr
    · exact h.plain hres r hr
    · rw [mem_singleton.mp hr]
      exact hv
  have hkind : ∀ kind, kind = terminalBudget ∨ kind = terminalCancelled →
      some (p.terminalKind.getD kind) = some terminalBudget ∨
        some (p.terminalKind.getD kind) = some terminalCancelled := by
    intro kind hkind
    have hold := h.kind
    split at hold
    · rcases hold with hold | hold <;> simp [hold]
    · simpa [hold] using hkind
  cases reply with
  | ok r => exact ⟨hpush _ (plain_toJson r), rfl⟩
  | error e =>
    cases e with
    | agentCallQuotaExceeded requested maximum => exact ⟨hpush .null rfl, rfl⟩
    | unsupported message => exact ⟨hpush .null rfl, rfl⟩
    | failed message => exact ⟨hpush .null rfl, rfl⟩
    -- a marker stops the journaling, so its value need not be plain
    | budgetExceeded => exact ⟨⟨h.noError, hkind _ (.inl rfl), nofun⟩, rfl⟩
    | cancelled => exact ⟨⟨h.noError, hkind _ (.inr rfl), nofun⟩, rfl⟩

theorem foldl_resolve_live {p : Panel} (h : p.Live) (i seq : Nat) (items : List Json) :
    ((livePending requestHash env i seq items).foldl Panel.resolve p).Live ∧
      ((livePending requestHash env i seq items).foldl Panel.resolve p).resolved =
        p.resolved ++ liveResolved requestHash env i seq items := by
  induction items generalizing p i seq with
  | nil => exact ⟨h, by simp [livePending, liveResolved]⟩
  | cons opts rest ih =>
    obtain ⟨hlive, hresolved⟩ := h.resolve seq (requestHash spawnAgent opts) (env.agent i)
    obtain ⟨hlive', hresolved'⟩ := ih hlive (i + 1) (seq + 1)
    refine ⟨hlive', ?_⟩
    rw [livePending, foldl_cons, hresolved', hresolved, liveResolved, append_assoc]
    rfl

/-- Recording a live panel: the journal tells all of it, or the limit or the
file stops it on the way. -/
theorem recordPanel_end (hsound : Sound ctx.journal.entries) (a i : Nat) (items : List Json)
    (hfits : ctx.journal.entries.length + items.length ≤ maxHostCalls)
    (hplain : ∀ r ∈ liveResolved requestHash env a ctx.journal.entries.length items,
      r.2.plain = true) :
    let recorded := recordPanel codec env i ctx
      (liveResolved requestHash env a ctx.journal.entries.length items)
    ctx.journal.entries <+: recorded.1.journal.entries ∧ recorded.1.seq = ctx.seq ∧
      ((recorded.2 = none ∧ Sound recorded.1.journal.entries ∧
        recorded.1.journal.entries.length = ctx.journal.entries.length + items.length ∧
        toldPanel requestHash recorded.1.journal.entries ctx.journal.entries.length items =
          some ((liveResolved requestHash env a ctx.journal.entries.length items).map (·.2))) ∨
      ∃ e, recorded.2 = some e ∧ e.ofReplay = false) := by
  induction items generalizing ctx a i with
  | nil => exact ⟨prefix_rfl, rfl, .inl ⟨rfl, hsound, rfl, rfl⟩⟩
  | cons opts rest ih =>
    rw [length_cons] at hfits
    rw [liveResolved, forall_mem_cons] at hplain
    have hrecord := @record_end codec ctx spawnAgent (requestHash spawnAgent opts)
      (liveValue (env.agent a)) (env.now i) (env.write i)
    simp only [liveResolved, recordPanel]
    rcases hrecord with ⟨ctx', hok, hentries, hseq⟩ | ⟨e, herror, hclean⟩
    · have hlength : ctx'.journal.entries.length = ctx.journal.entries.length + 1 := by
        rw [hentries, length_append, length_singleton]
      have hrest := @ih ctx' (hentries ▸ sound_append hsound (by omega) rfl) (a + 1) (i + 1)
        (by omega) (by rw [hlength]; exact hplain.2)
      simp only [hlength, hseq] at hrest
      simp only [hok]
      obtain ⟨hgrown, hseq', hcases⟩ := hrest
      refine ⟨(hentries ▸ prefix_append _ _ :
        ctx.journal.entries <+: ctx'.journal.entries).trans hgrown, hseq', ?_⟩
      rcases hcases with ⟨hnone, hsound', hlength', htold⟩ | ⟨e, hsome, hclean⟩
      · refine .inl ⟨hnone, hsound', by rw [hlength', length_cons]; omega, ?_⟩
        refine toldPanel_cons.mpr ⟨_, _, told_mono hgrown ?_, htold, hplain.1, rfl⟩
        rw [hentries]
        exact told_append _ _ _ _ _
      · exact .inr ⟨e, hsome, hclean⟩
    · simp only [herror]
      exact ⟨prefix_rfl, trivial, .inr ⟨e, rfl, hclean⟩⟩

theorem lives_parallelCall (hsound : Sound ctx.journal.entries)
    (hseq : ctx.seq = ctx.journal.entries.length) {items : List Json}
    (hsize : items.length ≤ maxParallel)
    (hreserve : spares HostError.catchable env.reserve = true) :
    let called := parallelCall codec requestHash env ctx items
    Lives requestHash ctx (.parallel items) called.ctx called.callEnd := by
  simp only [parallelCall, if_neg (Nat.not_lt_of_le hsize), countLive_end hseq.ge]
  rcases @reserve_kept env items.length hreserve with
    ⟨requests, hok⟩ | ⟨requests, token, hfail, htoken⟩
  · simp only [hok]
    rcases @startPanel_end requestHash ctx env hseq.ge 0 items with
      ⟨sent, hstart, hfits⟩ | ⟨ctx', sent, herror, hjournal⟩
    · have hfits : ctx.seq + items.length ≤ maxHostCalls := hfits (hseq ▸ hsound.capped)
      simp only [hstart]
      obtain ⟨hlive, hresolved⟩ := @foldl_resolve_live requestHash env _ Panel.live_start 0 ctx.seq items
      generalize (livePending requestHash env 0 ctx.seq items).foldl Panel.resolve Panel.start = p
        at hlive hresolved ⊢
      rw [Panel.start, nil_append] at hresolved
      have hkind := hlive.kind
      by_cases hresumable : p.resumable = true
      · -- nothing of the panel is journaled
        rw [if_pos hresumable] at hkind
        simp only [finishPanel, hresumable, if_true]
        rcases hkind with hkind | hkind
        · simp only [hkind]
          exact .stops rfl (by simp [hostTerminalError])
        · simp only [hkind]
          exact .stops rfl (by
            simp [hostTerminalError, show terminalCancelled ≠ terminalBudget by decide])
      · -- all of it is journaled, unless the journal or the file refuses an entry
        rw [if_neg hresumable] at hkind
        have hplain := hlive.plain (by simpa using hresumable)
        rw [hresolved, hseq] at hplain
        have hrecord := @recordPanel_end codec requestHash
          { ctx with seq := ctx.seq + items.length } env hsound 0 0 items (hseq ▸ hfits) hplain
        simp only [← hseq] at hrecord
        rw [← hresolved] at hrecord
        simp only [finishPanel, hresumable, if_false, hkind, hlive.noError, Bool.false_eq_true]
        obtain ⟨hgrown, hseq', ⟨hnone, hsound', hlength, htold⟩ | ⟨e, hsome, hclean⟩⟩ := hrecord
        · simp only [hnone]
          refine .tells hgrown hsound' ?_ ?_
          · rw [hseq', hlength]
          · rw [hseq', toldCall, HostCall.immediate, if_neg (Nat.not_lt_of_le hsize)]
            simp only [htold, map_some]
        · simp only [hsome]
          exact .fails hgrown hclean
    · simp only [herror]
      exact .fails (hjournal ▸ prefix_rfl) rfl
  · simp only [hfail]
    exact .stops rfl htoken

theorem run_live (hsound : Sound ctx.journal.entries) (hseq : ctx.seq = ctx.journal.entries.length)
    {c : HostCall} (hnone : toldCall requestHash ctx.journal.entries ctx.seq c = none)
    (hkept : env.kept ctx c = true) :
    Lives requestHash ctx c (c.run codec requestHash env ctx).ctx
      (c.run codec requestHash env ctx).callEnd := by
  have hreplaying : ctx.replaying = false := by simp [Ctx.replaying, Journal.covers, hseq]
  unfold toldCall at hnone
  cases c with
  | agent opts =>
    simp only [Env.kept, hreplaying, Bool.false_or, Bool.and_eq_true] at hkept
    exact lives_spawnAgentCall hsound hseq hkept.1 hkept.2
  | parallel items =>
    by_cases hsize : items.length > maxParallel
    · simp [HostCall.immediate, hsize] at hnone
    · -- the empty panel is told by every journal
      have hne : items ≠ [] := by
        intro hnil
        subst hnil
        simp [HostCall.immediate, toldPanel] at hnone
      have hpos := length_pos_iff.mpr hne
      have hreserve : spares HostError.catchable env.reserve = true := by
        simpa [Env.kept, hsize, hseq, hne] using hkept
      exact lives_parallelCall hsound hseq (Nat.le_of_not_lt hsize) hreserve
  | host kind payload =>
    simp only [Env.kept, hreplaying, Bool.false_or] at hkept
    refine lives_hostCall hsound hseq (fun entries v hv => ?_) _ (fun v hv => ?_) hkept
    · simp [toldCall, HostCall.immediate, hv]
    · exact replayHostError_reply hv
  | awaitUser kind message =>
    by_cases hkind : PauseKind.parse kind = none
    · simp [HostCall.immediate, hkind] at hnone
    · exact lives_awaitUserCall hsound hseq hkind
  | emit => cases hnone
  | pause kind message =>
    by_cases hkind : PauseKind.parse kind = none
    · simp [HostCall.immediate, hkind] at hnone
    · obtain ⟨parsed, hparsed⟩ := ne_none_iff_exists'.mp hkind
      simp only [HostCall.run, hparsed]
      refine .stops rfl ?_
      intro cause hfatal
      cases hfatal
  | complete value =>
    refine .stops rfl ?_
    intro cause hfatal
    cases hfatal

end Live

end GrokBuild.Workflow
