import GrokBuild.PromptQueue.Safe

/-!
# The queue loses nothing

A turn starts from the front of the queue, which its end takes out. With that
every event keeps the books, and over any run of events a user's prompt is in
the queue or answered, once; clients never touch the running prompt's item; a
stale request changes nothing; send-nows keep their order (`queue_kept`).
-/

namespace GrokBuild.PromptQueue

open TextLines Str ExpressLane List Option

/-! ## Turns -/

theorem dropStaleFronts_spec (stale : Text → Bool) (items : List InputItem) : ∃ dropped,
    items = dropped ++ (dropStaleFronts stale items).1 ∧
      (dropStaleFronts stale items).2 = dropped.map respondRemovedPrompt := by
  induction items with
  | nil => exact ⟨[], rfl, rfl⟩
  | cons item rest ih =>
    simp only [dropStaleFronts]
    split
    · split
      · obtain ⟨dropped, hsplit, hresponses⟩ := ih
        refine ⟨item :: dropped, ?_, ?_⟩
        · rw [cons_append, ← hsplit]
        · rw [hresponses, map_cons]
      · exact ⟨[], rfl, rfl⟩
    · exact ⟨[], rfl, rfl⟩

/-- Combining answers the followers it takes up; the front stays the same prompt. -/
theorem combine_cases (items : List InputItem) (skipIds : List Text) :
    (items = [] ∧ combineFrontPendingInputs items skipIds = ([], [])) ∨
      ∃ front front' followers behind, items = front :: (followers ++ behind) ∧
        SamePrompt front' front ∧
        combineFrontPendingInputs items skipIds =
          (front' :: behind, followers.map respondRemovedPrompt) := by
  cases items with
  | nil => exact .inl ⟨rfl, rfl⟩
  | cons front rest =>
    obtain ⟨blocks, queueMeta, heq, -, -, hid⟩ := combineFrontPendingInputs_eq front rest skipIds
    refine .inr ⟨front, { front with promptBlocks := blocks, queueMeta := queueMeta },
      mergedFollowers (front :: rest) skipIds, behindPrefix (front :: rest) skipIds, ?_,
      ⟨rfl, rfl, rfl, hid⟩, heq⟩
    rw [mergedFollowers_append_behind]

theorem startQueue_cases (st : State) (stale : Text → Bool) (combineQueued : Bool) :
    st.startQueue stale combineQueued = ([], st.pendingInputs.map respondRemovedPrompt) ∨
      ∃ dropped front front' followers behind,
        st.pendingInputs = dropped ++ front :: (followers ++ behind) ∧ SamePrompt front' front ∧
        st.startQueue stale combineQueued =
          (front' :: behind, dropped.map respondRemovedPrompt ++
            followers.map respondRemovedPrompt) := by
  obtain ⟨dropped, hsplit, hresponses⟩ := dropStaleFronts_spec stale st.pendingInputs
  simp only [State.startQueue]
  rw [hresponses]
  generalize dropStaleFronts stale st.pendingInputs = fresh at hsplit
  rcases fresh with ⟨items, responses⟩
  simp only at hsplit
  rw [hsplit]
  cases combineQueued with
  | true =>
    rcases combine_cases items (st.liveHolds items) with ⟨rfl, heq⟩ |
      ⟨front, front', followers, behind, rfl, hsame, heq⟩
    · left
      simp only [if_true, heq, append_nil]
    · right
      refine ⟨dropped, front, front', followers, behind, rfl, hsame, ?_⟩
      simp only [if_true, heq]
  | false =>
    cases items with
    | nil =>
      left
      simp only [Bool.false_eq_true, if_false, append_nil]
    | cons front behind =>
      right
      refine ⟨dropped, front, front, [], behind, rfl, .refl front, ?_⟩
      simp only [Bool.false_eq_true, if_false, map_nil]

variable {st : State}

theorem queued_of_idle (hr : st.runningPromptId = none) : st.queued = st.pendingInputs := by
  rw [State.queued, hr]
  rfl

theorem sound_start (h : Sound st) (stale : Text → Bool) (combineQueued : Bool) :
    Sound (maybeStartRunningTask stale combineQueued st) := by
  rw [maybeStartRunningTask]
  split
  · exact h
  · rename_i hidle
    have hr : st.runningPromptId = none := by
      simp only [Bool.or_eq_true, not_or, not_isSome_iff_eq_none] at hidle
      exact hidle.1
    have hlane := h.lane
    rw [queued_of_idle hr] at hlane
    rcases startQueue_cases st stale combineQueued with heq |
      ⟨dropped, front, front', followers, behind, hpending, hsame, heq⟩
    · simp only [heq]
      have hnone : ∀ item : InputItem, item ∉ ([] : List InputItem) := fun _ => not_mem_nil
      refine h.of_moves ⟨?_, fun item hitem => absurd hitem (hnone item), rfl, rfl⟩
        (fun r hr' => absurd hr'.symm (some_ne_none r))
        (hlane.sublist (nil_sublist _)) h.sends
      simp only [State.numbers, modifyHead_nil, map_nil, nil_append,
        map_append, List.map_map]
      exact perm_append_comm
    · simp only [heq]
      have hbehind : behind.Sublist st.pendingInputs := by
        rw [hpending]
        exact ((sublist_append_right followers behind).trans
          (sublist_cons_self front _)).trans (sublist_append_right dropped _)
      refine h.of_moves ⟨?_, fun item' hitem' => ?_, rfl, rfl⟩ ?_
        (lane_of_sublist hbehind hlane) h.sends
      · simp only [State.numbers, hpending, modifyHead_cons]
        refine perm_iff_count.mpr fun k => ?_
        have hfront : front'.promoted.respondTo = front.respondTo := hsame.respondTo
        simp only [map_append, map_cons, List.map_map, List.count_append,
          count_cons, Function.comp_def, respondRemovedPrompt, hfront]
        omega
      · rcases mem_cons.mp hitem' with rfl | hitem'
        · refine ⟨front, by rw [hpending]; simp, ?_⟩
          exact ⟨hsame.1, hsame.2, hsame.3, hsame.4⟩
        · exact ⟨item', hbehind.subset hitem', .refl item'⟩
      · intro r hr'
        exact ⟨front'.promoted, behind, rfl, some.inj hr'⟩

theorem sound_takeFront (h : Sound st) (completion : Completion) :
    Sound { st with
      pendingInputs := st.pendingInputs.tail
      runningPromptId := none
      responses := st.responses ++
        (st.pendingInputs.take 1).map fun item => (item.respondTo, completion) } := by
  have hlane : Lane (·.respondTo) (·.sendNow) st.pendingInputs.tail st.sends := by
    have hqueued := h.lane
    rw [State.queued] at hqueued
    split at hqueued
    · exact hqueued
    · exact lane_of_sublist (tail_sublist _) hqueued
  refine h.of_moves ⟨?_, fun item' hitem' => ⟨item', mem_of_mem_tail hitem', .refl item'⟩,
    rfl, rfl⟩ (fun r hr => absurd hr.symm (some_ne_none r)) hlane h.sends
  simp only [State.numbers]
  cases st.pendingInputs with
  | nil => simp
  | cons front rest =>
    refine perm_iff_count.mpr fun k => ?_
    simp only [tail_cons, take_succ_cons, take_zero, map_cons, map_nil,
      map_append, List.count_append, count_cons, count_nil]
    omega

theorem sound_completion (h : Sound st) (promptId : Text) : Sound (handleCompletion promptId st) := by
  rw [handleCompletion]
  cases hpending : st.pendingInputs with
  | nil =>
    have hr : st.isRunning promptId = false := by
      refine Bool.eq_false_iff.mpr fun hruns => ?_
      obtain ⟨front, rest, hfront, -⟩ := h.front promptId (isRunning_iff.mp hruns)
      rw [hpending] at hfront
      cases hfront
    simp only [head?_nil, filter_none, hr, isSome_none, Bool.or_self,
      Bool.false_eq_true, if_false]
    exact h
  | cons front rest =>
    cases howned : front.promptId == promptId with
    | true =>
      have htake := sound_takeFront h .turnResult
      simp only [hpending, tail_cons, take_succ_cons, take_zero, map_cons,
        map_nil] at htake
      simp only [head?_cons, filter_some, howned, if_true, isSome_some,
        Bool.or_true, tail_cons]
      exact htake
    | false =>
      have hr : st.isRunning promptId = false := by
        refine Bool.eq_false_iff.mpr fun hruns => ?_
        obtain ⟨front', rest', hfront, hid⟩ := h.front promptId (isRunning_iff.mp hruns)
        rw [hpending] at hfront
        obtain ⟨rfl, -⟩ := List.cons.inj hfront
        rw [hid, beq_self_eq_true] at howned
        cases howned
      simp only [head?_cons, filter_some, howned, Bool.false_eq_true, if_false,
        isSome_none, hr, Bool.or_self]
      exact h

/-! ## Runs -/

theorem sound_operation (h : Sound st) (op : QueueOperation) :
    Sound (op.apply st) ∧ (st.runningPromptId.isSome →
      (op.apply st).pendingInputs.head? = st.pendingInputs.head?) := by
  cases op with
  | queueInput p goalActive blockedInWait => exact sound_queueInput h p goalActive blockedInWait
  | remove id expectedVersion owner => exact h.keeps (keeps_remove h id expectedVersion owner)
  | interject id expectedVersion owner newText goalActive =>
    exact h.keeps (keeps_interject h id expectedVersion owner newText goalActive)
  | reorder orderedIds => exact h.keeps (keeps_reorder h orderedIds)
  | clear owner => exact h.keeps (keeps_clear h owner)
  | edit id newText editor => exact h.keeps (keeps_editQueuedPrompt h id newText editor)
  | holdCombineEdit | releaseCombineEdit =>
    have hkeeps := Keeps.refl st
    exact h.keeps ⟨⟨hkeeps.moves.1, hkeeps.moves.2, rfl, rfl⟩, rfl, hkeeps.rebuilt, hkeeps.sends⟩

theorem sound_start_state : Sound State.start where
  nodup := nodup_nil
  fresh := forall_mem_nil _
  kept := forall_mem_nil _
  users := forall_mem_nil _
  rows := forall_mem_nil _
  front := nofun
  lane := lane_nil
  sends := ⟨nodup_nil, forall_mem_nil _⟩

theorem sound_step (h : Sound st) (e : Event) : Sound (step st e) := by
  cases e with
  | operation op => exact (sound_operation h op).1
  | start stale combineQueued => exact sound_start h stale combineQueued
  | completion promptId => exact sound_completion h promptId
  | cancelForSendNow => exact sound_takeFront h .cancelled

theorem sound_run (events : List Event) : Sound (events.foldl step State.start) := by
  induction events using List.reverseRecOn with
  | nil => exact sound_start_state
  | append_singleton events e ih =>
    rw [foldl_append]
    exact sound_step ih e

/-! ## What the events ask for -/

/-- The prompts that are submitted, of users and automatic; the number of one is its place. -/
def submissions (events : List Event) : List PromptSubmission :=
  events.filterMap fun
    | .operation (.queueInput p _ _) => some p
    | _ => none

def PromptSubmission.isSynthetic (p : PromptSubmission) : Bool :=
  (PromptOrigin.fromPromptId p.promptId).isSynthetic

/-- The numbers of the prompts of users. -/
def userPrompts (events : List Event) : List Nat :=
  ((submissions events).zipIdx.filter fun p => !p.1.isSynthetic).map (·.2)

/-- A turn waits, and no prompt of a user is queued: one that comes now goes ahead. -/
def goesAhead (st : State) (blockedInWait : Bool) : Bool :=
  st.runningPromptId.isSome && blockedInWait &&
    !st.pendingInputs.any fun queued =>
      !queued.origin.isSynthetic && !st.isRunning queued.promptId

/-- The prompt that an event sends now, `next` being the number of a new one. -/
def sentNow (st : State) (next : Nat) : Event → Option Nat
  | .operation (.queueInput p _ blockedInWait) =>
    if !p.isSynthetic && (p.sendNow || goesAhead st blockedInWait) then some next else none
  | .operation (.interject id expectedVersion owner _ _) =>
    if st.isRunning id then none
    else (st.pendingInputs.find? (rowMatches id expectedVersion owner)).map (·.respondTo)
  | _ => none

/-- The prompts sent now since the last reorder, behind one more event. -/
def nextSends (st : State) (next : Nat) (sends : List Nat) : Event → List Nat
  | .operation (.reorder _) => []
  | e =>
    match sentNow st next e with
    | some k => sends.erase k ++ [k]
    | none => sends

/-- The same over the events, the last of them first. -/
def sendNowsBefore : List Event → List Nat
  | [] => []
  | e :: before =>
    nextSends (before.foldr (fun e st => step st e) State.start) (submissions before).length
      (sendNowsBefore before) e

def sendNows (events : List Event) : List Nat := sendNowsBefore events.reverse

/-! ## What clients see -/

/-- No row of the id is at the version and of the owner that a request names. -/
def Stale (st : State) (id : Text) (expectedVersion : Nat) (owner : Option Text) : Prop :=
  ∀ item ∈ st.pendingInputs, ∀ m, item.queueMeta = some m → m.id = id →
    m.version ≠ expectedVersion ∨ ∃ o, owner = some o ∧ m.owner ≠ some o

theorem Stale.no_match {id : Text} {expectedVersion : Nat} {owner : Option Text}
    (h : Stale st id expectedVersion owner) :
    ∀ item ∈ st.pendingInputs, rowMatches id expectedVersion owner item = false := by
  intro item hitem
  rw [rowMatches]
  split
  · rename_i m hm
    refine Bool.eq_false_iff.mpr fun hmatch => ?_
    simp only [Bool.and_eq_true, beq_iff_eq] at hmatch
    obtain ⟨⟨hid, hversion⟩, howner⟩ := hmatch
    rcases h item hitem m hm hid with hne | ⟨o, rfl, hne⟩
    · exact hne hversion
    · exact hne (beq_iff_eq.mp howner)
  · rfl

theorem replaceF_of_no_match {row : InputItem → Bool} {f : InputItem → InputItem}
    {items : List InputItem} (h : ∀ item ∈ items, row item = false) :
    (items.replaceF fun item => if row item then some (f item) else none) = items := by
  induction items with
  | nil => rfl
  | cons item items ih =>
    obtain ⟨hitem, hitems⟩ := forall_mem_cons.mp h
    rw [List.replaceF, hitem]
    simp only [Bool.false_eq_true, if_false, ih hitems]

theorem Stale.unchanged {id : Text} {expectedVersion : Nat} {owner : Option Text}
    (h : Stale st id expectedVersion owner) (newText : Option Text) (goalActive : Bool) :
    handleRemoveQueuedPrompt id expectedVersion owner st = st ∧
      (handleInterjectQueuedPrompt id expectedVersion owner newText goalActive st).1 = st := by
  have hnone : st.pendingInputs.find? (rowMatches id expectedVersion owner) = none := by
    rw [find?_eq_none]
    exact fun item hitem => by simp [h.no_match item hitem]
  constructor
  · rw [handleRemoveQueuedPrompt, hnone]
    exact ite_self st
  · simp only [handleInterjectQueuedPrompt, hnone, ite_self]
    split
    · split
      · rfl
      · rw [replaceF_of_no_match h.no_match]
    · rfl

/-- The session behind the events. -/
def sessionAfter (events : List Event) : State := events.foldl step State.start

/-- What the queue keeps for its clients, over the events from an empty queue on. -/
structure Kept (events : List Event) (st : State) : Prop where
  /-- A user's prompt is queued or answered, once. -/
  accounted : ∀ k ∈ userPrompts events,
    (st.pendingInputs.map (·.respondTo)).count k + (st.responses.map (·.1)).count k = 1
  /-- The running prompt's item is at the front, and no operation of a client changes that item. -/
  running : ∀ r, st.runningPromptId = some r → ∃ front, st.pendingInputs.head? = some front ∧
    front.promptId = r ∧ ∀ op : QueueOperation,
      (op.apply st).runningPromptId = some r ∧ (op.apply st).pendingInputs.head? = some front
  /-- A remove or send-now at another version or of another owner changes nothing. -/
  stale : ∀ id expectedVersion owner newText goalActive, Stale st id expectedVersion owner →
    handleRemoveQueuedPrompt id expectedVersion owner st = st ∧
      (handleInterjectQueuedPrompt id expectedVersion owner newText goalActive st).1 = st
  /-- The send-nows since the last reorder that are queued are in their order. -/
  inOrder : (sendNows events).Nodup ∧
    ((st.queued.map (·.respondTo)).filter (· ∈ sendNows events)).Sublist (sendNows events)
  /-- No plain prompt is queued ahead of one of them. -/
  ahead : ∀ before item after, st.queued = before ++ item :: after →
    item.respondTo ∈ sendNows events → ∀ x ∈ before ++ [item], x.sendNow = true

theorem apply_runningPromptId (st : State) (op : QueueOperation) :
    (op.apply st).runningPromptId = st.runningPromptId := by
  cases op with
  | queueInput | reorder | clear | holdCombineEdit | releaseCombineEdit => rfl
  | remove id expectedVersion owner =>
    rw [QueueOperation.apply, handleRemoveQueuedPrompt]
    split
    · rfl
    · split
      · rfl
      · rfl
  | interject id expectedVersion owner newText goalActive =>
    simp only [QueueOperation.apply, handleInterjectQueuedPrompt]
    split
    · rfl
    · split
      · split
        · rfl
        · rfl
      · rfl
  | edit id newText editor =>
    simp only [QueueOperation.apply, handleEditQueuedPrompt]
    split
    · rfl
    · split
      · rfl
      · split
        · rfl
        · rfl

theorem Sound.toKept {events : List Event} (h : Sound st)
    (haccepted : st.accepted = userPrompts events) (hsends : st.sends = sendNows events) :
    Kept events st where
  accounted k hk := by
    have hcount := count_eq_one_of_mem h.nodup (h.kept k (haccepted ▸ hk))
    rwa [State.numbers, List.count_append] at hcount
  running r hr := by
    obtain ⟨front, rest, hpending, hfront⟩ := h.front r hr
    refine ⟨front, by rw [hpending]; rfl, hfront, fun op => ?_⟩
    have hhead := (sound_operation h op).2 (by rw [hr]; rfl)
    rw [apply_runningPromptId, hhead, hpending]
    exact ⟨hr, rfl⟩
  stale _ _ _ newText goalActive hstale := hstale.unchanged newText goalActive
  inOrder := hsends ▸ ⟨h.sends.1, h.lane.inOrder⟩
  ahead before item after hqueued hitem := h.lane.ahead hqueued (hsends ▸ hitem)

/-! ## The books are those of the events -/

theorem any_sweep_synthetic (st : State) :
    ((st.sweepPendingInputs (·.origin.isSynthetic)).any fun queued =>
      !queued.origin.isSynthetic && !st.isRunning queued.promptId) =
      st.pendingInputs.any fun queued =>
        !queued.origin.isSynthetic && !st.isRunning queued.promptId := by
  rw [State.sweepPendingInputs, List.any_filter]
  congr 1
  funext item
  cases item.origin.isSynthetic <;> cases st.isRunning item.promptId <;> rfl

theorem books_step (h : Sound st) (e : Event) :
    (step st e).submitted = st.submitted + (submissions [e]).length ∧
      (step st e).accepted = st.accepted ++ (userPrompts [e]).map (· + st.submitted) ∧
      (step st e).sends = nextSends st st.submitted st.sends e := by
  cases e with
  | start stale combineQueued =>
    simp only [step, maybeStartRunningTask]
    split <;> simp [submissions, userPrompts, nextSends, sentNow]
  | completion promptId =>
    simp only [step, handleCompletion]
    split <;> split <;> simp [submissions, userPrompts, nextSends, sentNow]
  | cancelForSendNow => simp [step, cancelTurnForSendNow, submissions, userPrompts, nextSends, sentNow]
  | operation op =>
    cases op with
    | queueInput p goalActive blockedInWait =>
      have hfresh : st.submitted ∉ st.sends := fun hmem => Nat.lt_irrefl _ (h.sends.2 _ hmem)
      have hheld : (if !(p.item st.submitted).origin.isSynthetic && st.preemptArmed then
            st.sweepPendingInputs (·.origin.isSynthetic) else st.pendingInputs).any
              (fun queued => !queued.origin.isSynthetic && !st.isRunning queued.promptId) =
          st.pendingInputs.any fun queued =>
            !queued.origin.isSynthetic && !st.isRunning queued.promptId := by
        split
        · exact any_sweep_synthetic st
        · rfl
      refine ⟨rfl, ?_, ?_⟩
      · show (if p.isSynthetic then st.accepted else st.accepted ++ [st.submitted]) = _
        cases hsynthetic : p.isSynthetic <;> simp [submissions, userPrompts, hsynthetic]
      · show (if !p.isSynthetic && (p.sendNow || (st.runningPromptId.isSome && blockedInWait && _))
          then st.sends ++ [st.submitted] else st.sends) = _
        rw [hheld]
        change (if !p.isSynthetic && (p.sendNow || goesAhead st blockedInWait)
          then st.sends ++ [st.submitted] else st.sends) = _
        simp only [nextSends, sentNow]
        split
        · simp only [erase_of_not_mem hfresh]
        · rfl
    | interject id expectedVersion owner newText goalActive =>
      simp only [step, QueueOperation.apply, handleInterjectQueuedPrompt, nextSends, sentNow]
      cases hrunning : st.isRunning id with
      | true => cases nonBlank newText <;> simp [submissions, userPrompts]
      | false =>
        cases hfind : st.pendingInputs.find? (rowMatches id expectedVersion owner) with
        | none => cases nonBlank newText <;> simp [submissions, userPrompts]
        | some item =>
          have hsame := (withEditedText_same newText owner item).respondTo
          simp [submissions, userPrompts, hsame]
    | remove id expectedVersion owner =>
      simp only [step, QueueOperation.apply, handleRemoveQueuedPrompt]
      split
      · simp [submissions, userPrompts, nextSends, sentNow]
      · split <;> simp [submissions, userPrompts, nextSends, sentNow]
    | edit id newText editor =>
      simp only [step, QueueOperation.apply, handleEditQueuedPrompt]
      split
      · simp [submissions, userPrompts, nextSends, sentNow]
      · split
        · simp [submissions, userPrompts, nextSends, sentNow]
        · split <;> simp [submissions, userPrompts, nextSends, sentNow]
    | _ => simp [step, QueueOperation.apply, handleReorderQueue, handleClearQueue, submissions,
        userPrompts, nextSends, sentNow]

theorem userPrompts_concat (events : List Event) (e : Event) : userPrompts (events ++ [e]) =
    userPrompts events ++ (userPrompts [e]).map (· + (submissions events).length) := by
  have hsplit : submissions (events ++ [e]) = submissions events ++ submissions [e] := by
    simp [submissions]
  have hshift : (submissions [e]).zipIdx (submissions events).length =
      (submissions [e]).zipIdx.map (Prod.map id (· + (submissions events).length)) := by
    rw [map_snd_add_zipIdx_eq_zipIdx, Nat.add_zero]
  rw [userPrompts, hsplit, zipIdx_append, filter_append, map_append, userPrompts, userPrompts,
    Nat.zero_add, hshift, List.filter_map, List.map_map, List.map_map]
  rfl

theorem sendNows_concat (events : List Event) (e : Event) : sendNows (events ++ [e]) =
    nextSends (sessionAfter events) (submissions events).length (sendNows events) e := by
  have hlength : (submissions events.reverse).length = (submissions events).length := by
    rw [submissions, List.filterMap_reverse, length_reverse]
    rfl
  rw [sendNows, reverse_append, reverse_singleton, singleton_append, sendNowsBefore, foldr_reverse,
    hlength]
  rfl

theorem books_run (events : List Event) :
    (sessionAfter events).submitted = (submissions events).length ∧
      (sessionAfter events).accepted = userPrompts events ∧
      (sessionAfter events).sends = sendNows events := by
  induction events using List.reverseRecOn with
  | nil => exact ⟨rfl, rfl, rfl⟩
  | append_singleton events e ih =>
    obtain ⟨hsubmitted, haccepted, hsends⟩ := ih
    obtain ⟨hsubmitted', haccepted', hsends'⟩ := books_step (sound_run events) e
    rw [← sessionAfter, hsubmitted] at hsubmitted' haccepted' hsends'
    have hnext : sessionAfter (events ++ [e]) = step (sessionAfter events) e := by
      rw [sessionAfter, foldl_append]
      rfl
    rw [hnext]
    refine ⟨?_, ?_, ?_⟩
    · rw [hsubmitted']
      simp [submissions]
    · rw [haccepted', haccepted, userPrompts_concat]
    · rw [hsends', hsends, sendNows_concat]

/-- The queue loses nothing and never touches the running turn: over every
sequence of operations by any clients, and of turns started and ended between
them, from an empty queue. -/
theorem queue_kept (events : List Event) : Kept events (sessionAfter events) := by
  obtain ⟨-, haccepted, hsends⟩ := books_run events
  exact (sound_run events).toKept haccepted hsends

end GrokBuild.PromptQueue
