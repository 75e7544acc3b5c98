import GrokBuild.Lib.Lane
import GrokBuild.PromptQueue.Handlers

/-!
# The books of the queue

What holds of a session's queue between events (`Sound`): no prompt is in it
or answered twice, the running prompt's item is at the front, the send-nows
form a lane at the front of what is queued. The operations on rows only move
prompts, past the running front (`Keeps`); a user's prompt may drop automatic
ones before it joins (`sound_queueInput`).
-/

namespace GrokBuild.PromptQueue

open TextLines Str ExpressLane List
open Workflow (Json)

/-- The numbers of the prompts that are queued or answered. -/
def State.numbers (st : State) : List Nat :=
  st.pendingInputs.map (·.respondTo) ++ st.responses.map (·.1)

/-- The prompts that are queued and do not run. -/
def State.queued (st : State) : List InputItem :=
  if st.runningPromptId.isSome then st.pendingInputs.tail else st.pendingInputs

theorem State.queued_sublist (st : State) : st.queued.Sublist st.pendingInputs := by
  rw [State.queued]
  split
  · exact tail_sublist _
  · exact List.Sublist.refl _

/-- The same prompt, with its place in the queue's books. -/
structure SamePrompt (a b : InputItem) : Prop where
  respondTo : a.respondTo = b.respondTo
  promptId : a.promptId = b.promptId
  origin : a.origin = b.origin
  rowId : a.queueMeta.map (·.id) = b.queueMeta.map (·.id)

theorem SamePrompt.refl (a : InputItem) : SamePrompt a a := ⟨rfl, rfl, rfl, rfl⟩

/-- The events that move prompts from the queue to the responses, if anywhere. -/
structure Moves (st st' : State) : Prop where
  numbers : st'.numbers.Perm st.numbers
  same : ∀ item' ∈ st'.pendingInputs, ∃ item ∈ st.pendingInputs, SamePrompt item' item
  submitted : st'.submitted = st.submitted
  accepted : st'.accepted = st.accepted

/-- The running prompt's item is at the front. -/
def State.FrontRuns (st : State) : Prop :=
  ∀ r, st.runningPromptId = some r → ∃ front rest,
    st.pendingInputs = front :: rest ∧ front.promptId = r

structure Sound (st : State) : Prop where
  nodup : st.numbers.Nodup
  fresh : ∀ k ∈ st.numbers, k < st.submitted
  kept : ∀ k ∈ st.accepted, k ∈ st.numbers
  users : ∀ item ∈ st.pendingInputs, item.respondTo ∈ st.accepted →
    item.origin.isSynthetic = false
  rows : ∀ item ∈ st.pendingInputs, ∀ id ∈ item.queueMeta.map (·.id), id = item.promptId
  front : st.FrontRuns
  lane : Lane (·.respondTo) (·.sendNow) st.queued st.sends
  sends : st.sends.Nodup ∧ ∀ k ∈ st.sends, k < st.submitted

theorem Sound.of_moves {st st' : State} (h : Sound st) (hmoves : Moves st st')
    (hfront : st'.FrontRuns) (hlane : Lane (·.respondTo) (·.sendNow) st'.queued st'.sends)
    (hsends : st'.sends.Nodup ∧ ∀ k ∈ st'.sends, k < st'.submitted) : Sound st' where
  nodup := hmoves.numbers.nodup_iff.mpr h.nodup
  fresh k hk := by
    rw [hmoves.submitted]
    exact h.fresh k (hmoves.numbers.subset hk)
  kept k hk := by
    rw [hmoves.accepted] at hk
    exact hmoves.numbers.symm.subset (h.kept k hk)
  users item' hitem' hk := by
    obtain ⟨item, hitem, hsame⟩ := hmoves.same item' hitem'
    rw [hmoves.accepted, hsame.respondTo] at hk
    rw [hsame.origin]
    exact h.users item hitem hk
  rows item' hitem' id hid := by
    obtain ⟨item, hitem, hsame⟩ := hmoves.same item' hitem'
    rw [hsame.rowId] at hid
    rw [hsame.promptId]
    exact h.rows item hitem id hid
  front := hfront
  lane := hlane
  sends := hsends

/-! ## The running front -/
variable {st : State} {id : Text}
theorem isRunning_iff :
    st.isRunning id = true ↔ st.runningPromptId = some id := by
  rw [State.isRunning, beq_iff_eq]

/-- Rows of one id. -/
def NamesRow (id : Text) (row : InputItem → Bool) : Prop :=
  ∀ item, row item = true → item.queueMeta.map (·.id) = some id

theorem rowMatches_names (id : Text) (expectedVersion : Nat) (owner : Option Text) :
    NamesRow id (rowMatches id expectedVersion owner) := by
  intro item h
  rw [rowMatches] at h
  split at h
  · rename_i m hm
    simp only [Bool.and_eq_true, beq_iff_eq] at h
    rw [hm, Option.map_some, h.1.1]
  · cases h
variable {row : InputItem → Bool}

theorem Sound.front_not_row (h : Sound st)
    (hrow : NamesRow id row) (hid : st.isRunning id = false) {front : InputItem}
    {rest : List InputItem} (hpending : st.pendingInputs = front :: rest)
    (hr : st.runningPromptId = some front.promptId) : row front = false := by
  refine Bool.eq_false_iff.mpr fun hmatch => ?_
  have hmeta := hrow front hmatch
  have hsame := h.rows front (by rw [hpending]; exact mem_cons_self) id
    (by rw [hmeta]; rfl)
  have hruns : st.isRunning id = true := by rw [isRunning_iff, hr, hsame]
  rw [hruns] at hid
  cases hid

/-- The new pending items are the new queued ones behind the running front. -/
def Rebuilt (st : State) (pending queued : List InputItem) : Prop :=
  (st.runningPromptId = none → pending = queued) ∧
    ∀ front rest, st.pendingInputs = front :: rest → st.runningPromptId = some front.promptId →
      pending = front :: queued

theorem Rebuilt.of_past (change : List InputItem → List InputItem)
    (h : ∀ front rest, st.pendingInputs = front :: rest →
      st.runningPromptId = some front.promptId → change (front :: rest) = front :: change rest) :
    Rebuilt st (change st.pendingInputs) (change st.queued) := by
  refine ⟨fun hr => ?_, fun front rest hpending hr => ?_⟩
  · rw [State.queued, hr]
    rfl
  · rw [State.queued, hr, hpending]
    exact h front rest hpending hr

theorem insertIdx_takeWhile (x : InputItem) (items : List InputItem) :
    items.insertIdx (items.takeWhile (·.sendNow)).length x =
      insertExpress (·.sendNow) x items := by
  rw [insertExpress]
  induction items with
  | nil => rfl
  | cons item items ih =>
    cases hflag : item.sendNow with
    | true =>
      rw [takeWhile_cons_of_pos hflag, dropWhile_cons_of_pos hflag, length_cons,
        insertIdx_succ_cons, ih]
      rfl
    | false =>
      have hnot : ¬ item.sendNow = true := by simp [hflag]
      rw [takeWhile_cons_of_neg hnot, dropWhile_cons_of_neg hnot]
      rfl

theorem Rebuilt.insertSendNow {pending queued : List InputItem}
    (h : Rebuilt st pending queued) (item : InputItem) :
    Rebuilt st (st.insertSendNow item pending)
      (insertExpress (·.sendNow) { item with sendNow := true } queued) := by
  refine ⟨fun hr => ?_, fun front rest hpending hr => ?_⟩
  · have hstart : st.frontRuns pending = false := by
      rw [State.frontRuns]
      split
      · rw [State.isRunning, hr]
        rfl
      · rfl
    rw [State.insertSendNow, State.sendNowIndex, hstart, h.1 hr]
    simp only [Bool.false_eq_true, if_false, drop_zero, Nat.zero_add]
    exact insertIdx_takeWhile _ queued
  · have hnew := h.2 front rest hpending hr
    have hstart : st.frontRuns pending = true := by
      rw [hnew]
      exact isRunning_iff.mpr hr
    rw [State.insertSendNow, State.sendNowIndex, hstart, hnew]
    simp only [if_true, drop_succ_cons, drop_zero, Nat.add_comm 1,
      insertIdx_succ_cons, insertIdx_takeWhile]

theorem Rebuilt.push {pending queued : List InputItem}
    (h : Rebuilt st pending queued) (item : InputItem) :
    Rebuilt st (pending ++ [item]) (queued ++ [item]) := by
  refine ⟨fun hr => ?_, fun front rest hpending hr => ?_⟩
  · rw [h.1 hr]
  · rw [h.2 front rest hpending hr, cons_append]

theorem Sound.rebuilt (st' : State) {queued : List InputItem} (h : Sound st)
    (hrebuilt : Rebuilt st st'.pendingInputs queued)
    (hrunning : st'.runningPromptId = st.runningPromptId) :
    st'.queued = queued ∧ st'.FrontRuns ∧
      (st.runningPromptId.isSome → st'.pendingInputs.head? = st.pendingInputs.head?) := by
  rw [State.queued, State.FrontRuns, hrunning]
  cases hr : st.runningPromptId with
  | none =>
    refine ⟨hrebuilt.1 hr, ?_, nofun⟩
    intro r hr'
    cases hr'
  | some r =>
    obtain ⟨front, rest, hfront, rfl⟩ := h.front r hr
    rw [hfront, hrebuilt.2 front rest hfront hr]
    refine ⟨rfl, ?_, fun _ => rfl⟩
    intro r' hr'
    obtain rfl := Option.some.inj hr'
    exact ⟨front, queued, rfl, rfl⟩

/-! ## Operations that keep the books -/

/-- An operation that only moves prompts, seen past the running front. -/
structure Keeps (st st' : State) : Prop where
  moves : Moves st st'
  running : st'.runningPromptId = st.runningPromptId
  rebuilt : ∃ queued, Rebuilt st st'.pendingInputs queued ∧
    (Lane (·.respondTo) (·.sendNow) st.queued st.sends →
      Lane (·.respondTo) (·.sendNow) queued st'.sends)
  sends : st.sends.Nodup ∧ (∀ k ∈ st.sends, k < st.submitted) →
    st'.sends.Nodup ∧ ∀ k ∈ st'.sends, k < st'.submitted

theorem Sound.keeps {st st' : State} (h : Sound st) (hkeeps : Keeps st st') : Sound st' ∧
    (st.runningPromptId.isSome → st'.pendingInputs.head? = st.pendingInputs.head?) := by
  obtain ⟨queued, hrebuilt, hlane⟩ := hkeeps.rebuilt
  obtain ⟨hqueued, hfront, hhead⟩ := h.rebuilt _ hrebuilt hkeeps.running
  refine ⟨h.of_moves hkeeps.moves hfront ?_ (hkeeps.sends h.sends), hhead⟩
  rw [hqueued]
  exact hlane h.lane

theorem Keeps.refl (st : State) : Keeps st st where
  moves := ⟨List.Perm.refl _, fun item hitem => ⟨item, hitem, .refl item⟩, rfl, rfl⟩
  running := rfl
  rebuilt := ⟨st.queued, Rebuilt.of_past id fun _ _ _ _ => rfl, id⟩
  sends := id

theorem find?_eraseP {items : List InputItem} {item : InputItem}
    (h : items.find? row = some item) : row item = true ∧ ∃ before after,
      items = before ++ item :: after ∧ items.eraseP row = before ++ after := by
  obtain ⟨hrow, before, after, rfl, hbefore⟩ := find?_eq_some_iff_append.mp h
  refine ⟨hrow, before, after, rfl, ?_⟩
  rw [eraseP_append_right, eraseP_cons_of_pos hrow]
  exact fun x hx => by simpa using hbefore x hx

theorem lane_of_sublist {queue queue' : List InputItem} {sends : List Nat}
    (h : queue'.Sublist queue) (hlane : Lane (·.respondTo) (·.sendNow) queue sends) :
    Lane (·.respondTo) (·.sendNow) queue' sends :=
  hlane.sublist (h.map _)

theorem Sound.rebuilt_eraseP (h : Sound st)
    (hrow : NamesRow id row) (hid : st.isRunning id = false) :
    Rebuilt st (st.pendingInputs.eraseP row) (st.queued.eraseP row) := by
  refine Rebuilt.of_past _ fun front rest hpending hr => ?_
  exact eraseP_cons_of_neg (by simp [h.front_not_row hrow hid hpending hr])

theorem Sound.rebuilt_replaceF (h : Sound st)
    (hrow : NamesRow id row) (hid : st.isRunning id = false) (f : InputItem → InputItem) :
    Rebuilt st (st.pendingInputs.replaceF fun item => if row item then some (f item) else none)
      (st.queued.replaceF fun item => if row item then some (f item) else none) := by
  refine Rebuilt.of_past _ fun front rest hpending hr => ?_
  rw [List.replaceF, if_neg (by simp [h.front_not_row hrow hid hpending hr])]

theorem keeps_remove (h : Sound st) (id : Text) (expectedVersion : Nat)
    (owner : Option Text) : Keeps st (handleRemoveQueuedPrompt id expectedVersion owner st) := by
  rw [handleRemoveQueuedPrompt]
  split
  · exact Keeps.refl st
  · rename_i hid
    split
    · rename_i item hitem
      obtain ⟨-, before, after, hpending, herase⟩ := find?_eraseP hitem
      refine ⟨⟨?_, fun item' hitem' => ⟨item', eraseP_subset hitem', .refl item'⟩, rfl, rfl⟩,
        rfl, ⟨_, h.rebuilt_eraseP (rowMatches_names id expectedVersion owner)
          (Bool.eq_false_iff.mpr hid), lane_of_sublist eraseP_sublist⟩, fun hsends => hsends⟩
      simp only [State.numbers, herase, respondRemovedPrompt]
      rw [hpending]
      refine perm_iff_count.mpr fun k => ?_
      simp only [map_append, map_cons, map_nil, List.count_append, count_cons,
        count_nil]
      omega
    · exact Keeps.refl st

theorem applyQueuedPromptEdit_same (newText : Text) (editor : Option Text) (item : InputItem) :
    SamePrompt (applyQueuedPromptEdit newText editor item) item := by
  refine ⟨rfl, rfl, rfl, ?_⟩
  rw [applyQueuedPromptEdit, Option.map_map]
  rfl

theorem withEditedText_same (newText owner : Option Text) (item : InputItem) :
    SamePrompt (withEditedText newText owner item) item := by
  rw [withEditedText]
  split
  · exact applyQueuedPromptEdit_same _ owner item
  · exact .refl item

theorem map_replaceF {β : Type} (g : InputItem → β)
    {f : InputItem → InputItem} (hf : ∀ item, g (f item) = g item) (items : List InputItem) :
    (items.replaceF fun item => if row item then some (f item) else none).map g =
      items.map g := by
  induction items with
  | nil => rfl
  | cons item items ih =>
    rw [List.replaceF]
    split
    · rename_i hmatch
      simp only [ite_eq_right_iff, reduceCtorEq, imp_false] at hmatch
      rw [map_cons, map_cons, ih]
    · rename_i item' hmatch
      obtain ⟨-, rfl⟩ : row item = true ∧ f item = item' := by simpa using hmatch
      rw [map_cons, map_cons, hf]

theorem mem_replaceF {f : InputItem → InputItem} {items : List InputItem}
    {item' : InputItem}
    (h : item' ∈ items.replaceF fun item => if row item then some (f item) else none) :
    item' ∈ items ∨ ∃ item ∈ items, item' = f item := by
  induction items with
  | nil => cases h
  | cons item items ih =>
    rw [List.replaceF] at h
    split at h
    · rcases mem_cons.mp h with rfl | h
      · exact .inl mem_cons_self
      · rcases ih h with hmem | ⟨old, hold, heq⟩
        · exact .inl (mem_cons_of_mem _ hmem)
        · exact .inr ⟨old, mem_cons_of_mem _ hold, heq⟩
    · rename_i new hmatch
      obtain ⟨-, rfl⟩ : row item = true ∧ f item = new := by simpa using hmatch
      rcases mem_cons.mp h with rfl | h
      · exact .inr ⟨item, mem_cons_self, rfl⟩
      · exact .inl (mem_cons_of_mem _ h)

theorem keeps_edit {st st' : State} (h : Sound st)
    (hrow : NamesRow id row) (hid : st.isRunning id = false) (newText : Text)
    (editor : Option Text)
    (hst' : ∃ holds, st' = { st with
      pendingInputs := st.pendingInputs.replaceF fun item =>
        if row item then some (applyQueuedPromptEdit newText editor item) else none
      combineEditHolds := holds }) : Keeps st st' := by
  obtain ⟨holds, rfl⟩ := hst'
  refine ⟨⟨?_, fun item' hitem' => ?_, rfl, rfl⟩, rfl,
    ⟨_, h.rebuilt_replaceF hrow hid _, fun hlane => hlane.sublist ?_⟩, fun hsends => hsends⟩
  · simp only [State.numbers]
    rw [map_replaceF (f := applyQueuedPromptEdit newText editor) (·.respondTo) fun _ => rfl]
  · rcases mem_replaceF hitem' with hmem | ⟨item, hmem, rfl⟩
    · exact ⟨item', hmem, .refl item'⟩
    · exact ⟨item, hmem, applyQueuedPromptEdit_same newText editor item⟩
  · rw [map_replaceF (f := applyQueuedPromptEdit newText editor)
      (fun item => (item.respondTo, item.sendNow)) fun _ => rfl]

theorem keeps_editQueuedPrompt (h : Sound st) (id newText : Text)
    (editor : Option Text) : Keeps st (handleEditQueuedPrompt id newText editor st) := by
  simp only [handleEditQueuedPrompt]
  split
  · exact Keeps.refl st
  · split
    · exact Keeps.refl st
    · rename_i hid
      split
      · exact Keeps.refl st
      · refine keeps_edit h ?_ (Bool.eq_false_iff.mpr hid) newText editor ⟨_, rfl⟩
        intro item hrow
        cases hm : item.queueMeta with
        | none => simp [hm] at hrow
        | some m => simpa [hm] using hrow

theorem sendNowIndex_le (st : State) (pending : List InputItem) :
    st.sendNowIndex pending ≤ pending.length := by
  have htake := (List.takeWhile_prefix (·.sendNow)
    (l := pending.drop (if st.frontRuns pending then 1 else 0))).length_le
  rw [length_drop] at htake
  have hstart : (if st.frontRuns pending then 1 else 0) ≤ pending.length := by
    cases pending with
    | nil => simp [State.frontRuns]
    | cons item rest =>
      rw [length_cons]
      split
      · exact Nat.le_add_left 1 _
      · exact Nat.zero_le _
  simp only [State.sendNowIndex]
  omega

theorem keeps_interject (h : Sound st) (id : Text) (expectedVersion : Nat)
    (owner newText : Option Text) (goalActive : Bool) :
    Keeps st (handleInterjectQueuedPrompt id expectedVersion owner newText goalActive st).1 := by
  have hrow := rowMatches_names id expectedVersion owner
  simp only [handleInterjectQueuedPrompt]
  cases hid : st.isRunning id with
  | true =>
    simp only [if_true]
    split
    · exact Keeps.refl st
    · exact Keeps.refl st
  | false =>
    simp only [Bool.false_eq_true, if_false]
    split
    · rename_i item hitem
      have hsame := withEditedText_same newText owner item
      generalize withEditedText newText owner item = item' at hsame
      obtain ⟨-, before, after, hpending, herase⟩ := find?_eraseP hitem
      have hmem : item ∈ st.pendingInputs := mem_of_find?_eq_some hitem
      have hperm : (st.insertSendNow item' (st.pendingInputs.eraseP
          (rowMatches id expectedVersion owner))).Perm
          ({ item' with sendNow := true } :: (before ++ after)) := by
        rw [herase]
        exact perm_insertIdx _ _ (sendNowIndex_le st _)
      refine ⟨⟨?_, fun x hx => ?_, rfl, rfl⟩, rfl, ⟨_, (h.rebuilt_eraseP hrow hid).insertSendNow item',
        fun hlane => ?_⟩, fun hsends => ⟨?_, fun k hk => ?_⟩⟩
      · simp only [State.numbers]
        refine ((hperm.map _).append_right _).trans ?_
        rw [hpending]
        refine perm_iff_count.mpr fun k => ?_
        simp only [map_append, map_cons, hsame.respondTo, List.count_append,
          count_cons]
        omega
      · rcases mem_cons.mp (hperm.subset hx) with rfl | hx
        · exact ⟨item, hmem, ⟨hsame.1, hsame.2, hsame.3, hsame.4⟩⟩
        · refine ⟨x, ?_, .refl x⟩
          rw [hpending]
          simp only [mem_append, mem_cons] at hx ⊢
          tauto
      · have herased := lane_of_sublist
          (eraseP_sublist (p := rowMatches id expectedVersion owner)) hlane
        have hinsert := herased.insert (x := { item' with sendNow := true }) rfl fun y hy heq => ?_
        · simpa only [hsame.respondTo] using hinsert
        -- no other prompt has the number of this one
        · have hother : y ∈ before ++ after := by
            rw [← herase]
            exact (st.queued_sublist.eraseP).subset hy
          have hnodup := (nodup_append'.mp h.nodup).1
          rw [hpending, map_append, map_cons, nodup_middle, ← map_append,
            nodup_cons] at hnodup
          refine hnodup.1 ?_
          rw [← hsame.respondTo, ← heq]
          exact List.mem_map_of_mem hother
      · refine nodup_append'.mpr ⟨hsends.1.erase _, nodup_singleton _, ?_⟩
        rw [disjoint_singleton]
        exact hsends.1.not_mem_erase
      · rcases mem_append.mp hk with hk | hk
        · exact hsends.2 k (mem_of_mem_erase hk)
        · rw [mem_singleton.mp hk, hsame.respondTo]
          exact h.fresh _ (mem_append_left _ (List.mem_map_of_mem hmem))
    · rename_i hnone
      split
      · rename_i text htext
        exact keeps_edit h hrow hid text owner ⟨st.combineEditHolds, rfl⟩
      · exact Keeps.refl st

theorem Sound.front_row_runs (h : Sound st) {front : InputItem}
    {rest : List InputItem} (hpending : st.pendingInputs = front :: rest)
    (hr : st.runningPromptId = some front.promptId) {m : QueueEntryMeta}
    (hm : front.queueMeta = some m) : st.isRunning m.id = true := by
  have hsame := h.rows front (by rw [hpending]; exact mem_cons_self) m.id (by rw [hm]; rfl)
  rw [isRunning_iff, hr, hsame]

theorem keeps_reorder (h : Sound st) (orderedIds : List Text) :
    Keeps st (handleReorderQueue orderedIds st) := by
  have hperm : (handleReorderQueue orderedIds st).pendingInputs.Perm st.pendingInputs := by
    refine ((mergeSort_perm _ _).append_left _).trans ?_
    exact perm_append_comm.trans (filter_append_perm _ _)
  refine ⟨⟨?_, fun x hx => ⟨x, hperm.subset hx, .refl x⟩, rfl, rfl⟩, rfl, ?_, fun _ => ?_⟩
  · exact (hperm.map _).append_right _
  · refine ⟨_, Rebuilt.of_past (fun items =>
      items.filter (fun item => !st.isQueueable item) ++ (items.filter st.isQueueable).mergeSort
        fun a b => orderRank orderedIds a ≤ orderRank orderedIds b) ?_, fun _ => lane_nil⟩
    intro front rest hpending hr
    have hpinned : st.isQueueable front = false := by
      rw [State.isQueueable]
      split
      · rename_i m hm
        rw [h.front_row_runs hpending hr hm]
        rfl
      · rfl
    simp [hpinned]
  · exact ⟨nodup_nil, forall_mem_nil _⟩

theorem keeps_clear (h : Sound st) (owner : Option Text) :
    Keeps st (handleClearQueue owner st) := by
  refine ⟨⟨?_, fun x hx => ⟨x, mem_of_mem_filter hx, .refl x⟩, rfl, rfl⟩, rfl,
    ⟨_, Rebuilt.of_past (fun items => items.filter (st.keptByClear owner)) ?_,
      lane_of_sublist filter_sublist⟩, fun hsends => hsends⟩
  · have hsplit := (filter_append_perm (st.keptByClear owner) st.pendingInputs).map
      (·.respondTo)
    simp only [State.numbers, handleClearQueue, map_append, List.map_map]
    refine perm_iff_count.mpr fun k => ?_
    have hcount := hsplit.count_eq k
    simp only [map_append, List.count_append, Function.comp_def, respondRemovedPrompt]
      at hcount ⊢
    omega
  · intro front rest hpending hr
    have hkept : st.keptByClear owner front = true := by
      rw [State.keptByClear]
      split
      · rfl
      · rename_i m hm
        rw [h.front_row_runs hpending hr hm]
        rfl
    simp [hkept]

/-! ## Submitting -/

theorem sound_sweep (h : Sound st) :
    Sound { st with pendingInputs := st.sweepPendingInputs (·.origin.isSynthetic) } ∧
      (st.runningPromptId.isSome →
        (st.sweepPendingInputs (·.origin.isSynthetic)).head? = st.pendingInputs.head?) := by
  have hsub : (st.sweepPendingInputs (·.origin.isSynthetic)).Sublist st.pendingInputs :=
    filter_sublist
  have hrebuilt : Rebuilt st (st.sweepPendingInputs (·.origin.isSynthetic))
      (st.queued.filter fun item => !(!st.isRunning item.promptId && item.origin.isSynthetic)) := by
    refine Rebuilt.of_past (fun items => items.filter fun item =>
      !(!st.isRunning item.promptId && item.origin.isSynthetic)) fun front rest _ hr => ?_
    exact filter_cons_of_pos (by simp [isRunning_iff.mpr hr])
  obtain ⟨hqueued, hfront, hhead⟩ :=
    h.rebuilt { st with pendingInputs := st.sweepPendingInputs (·.origin.isSynthetic) }
      hrebuilt rfl
  have hnumbers : (State.numbers { st with
      pendingInputs := st.sweepPendingInputs (·.origin.isSynthetic) }).Sublist st.numbers :=
    (hsub.map _).append (List.Sublist.refl _)
  refine ⟨⟨h.nodup.sublist hnumbers, fun k hk => h.fresh k (hnumbers.subset hk), fun k hk => ?_,
    fun item hitem => h.users item (hsub.subset hitem),
    fun item hitem => h.rows item (hsub.subset hitem), hfront, ?_, h.sends⟩, hhead⟩
  · rcases mem_append.mp (h.kept k hk) with hmem | hmem
    · obtain ⟨item, hitem, rfl⟩ := List.mem_map.mp hmem
      refine mem_append_left _ (List.mem_map_of_mem (mem_filter.mpr ⟨hitem, ?_⟩))
      simp [h.users item hitem hk]
    · exact mem_append_right _ hmem
  · rw [hqueued]
    exact lane_of_sublist filter_sublist h.lane

/-- A new prompt put at the end, or as send-now. -/
def State.submit (st : State) (p : PromptSubmission) (sendNow : Bool) : State :=
  { st with
    pendingInputs :=
      if sendNow then st.insertSendNow (p.item st.submitted) st.pendingInputs
      else st.pendingInputs ++ [p.item st.submitted]
    submitted := st.submitted + 1
    accepted :=
      if (p.item st.submitted).origin.isSynthetic then st.accepted
      else st.accepted ++ [st.submitted]
    sends := if sendNow then st.sends ++ [st.submitted] else st.sends }

theorem submit_perm (st : State) (p : PromptSubmission) (sendNow : Bool) :
    (st.submit p sendNow).pendingInputs.Perm
      ({ p.item st.submitted with sendNow := sendNow } :: st.pendingInputs) := by
  cases sendNow with
  | true => exact perm_insertIdx _ _ (sendNowIndex_le st _)
  | false => exact perm_append_singleton _ _

theorem Sound.fresh_number (h : Sound st) : st.submitted ∉ st.numbers :=
  fun hmem => Nat.lt_irrefl _ (h.fresh _ hmem)

theorem Sound.submit_lane (h : Sound st) (p : PromptSubmission) (sendNow : Bool) :
    ∃ queued, Rebuilt st (st.submit p sendNow).pendingInputs queued ∧
      Lane (·.respondTo) (·.sendNow) queued (st.submit p sendNow).sends := by
  have hold : Rebuilt st st.pendingInputs st.queued :=
    Rebuilt.of_past id fun _ _ _ _ => rfl
  have hsends : st.submitted ∉ st.sends := fun hmem => Nat.lt_irrefl _ (h.sends.2 _ hmem)
  cases sendNow with
  | true =>
    refine ⟨_, hold.insertSendNow (p.item st.submitted), ?_⟩
    have hnew : ∀ y ∈ st.queued, y.respondTo ≠ st.submitted := fun y hy heq => by
      refine h.fresh_number ?_
      rw [← heq]
      exact mem_append_left _ (List.mem_map_of_mem (st.queued_sublist.subset hy))
    show Lane _ _ _ (st.sends ++ [st.submitted])
    rw [← erase_of_not_mem hsends]
    exact h.lane.insert (x := { p.item st.submitted with sendNow := true }) rfl hnew
  | false => exact ⟨_, hold.push (p.item st.submitted), h.lane.push hsends⟩

theorem sound_submit (h : Sound st) (p : PromptSubmission) (sendNow : Bool) :
    Sound (st.submit p sendNow) ∧ (st.runningPromptId.isSome →
      (st.submit p sendNow).pendingInputs.head? = st.pendingInputs.head?) := by
  obtain ⟨queued, hrebuilt, hlane⟩ := h.submit_lane p sendNow
  obtain ⟨hqueued, hfront, hhead⟩ := h.rebuilt _ hrebuilt rfl
  have hperm := submit_perm st p sendNow
  have hnumbers : (st.submit p sendNow).numbers.Perm (st.submitted :: st.numbers) :=
    (hperm.map _).append_right _
  have haccepted : ∀ k ∈ st.accepted, k < st.submitted := fun k hk => h.fresh k (h.kept k hk)
  refine ⟨⟨?_, fun k hk => ?_, fun k hk => ?_, fun item hitem hk => ?_, fun item hitem => ?_,
    hfront, ?_, ?_⟩, hhead⟩
  · exact hnumbers.nodup_iff.mpr (nodup_cons.mpr ⟨h.fresh_number, h.nodup⟩)
  · rcases mem_cons.mp (hnumbers.subset hk) with rfl | hk
    · exact Nat.lt_succ_self _
    · exact Nat.lt_succ_of_lt (h.fresh k hk)
  · refine hnumbers.symm.subset ?_
    simp only [State.submit] at hk
    split at hk
    · exact mem_cons_of_mem _ (h.kept k hk)
    · rcases mem_append.mp hk with hk | hk
      · exact mem_cons_of_mem _ (h.kept k hk)
      · exact mem_cons.mpr (.inl (mem_singleton.mp hk))
  · simp only [State.submit] at hk
    rcases mem_cons.mp (hperm.subset hitem) with rfl | hitem
    · -- the new prompt is accepted only as a user's
      by_contra hsynthetic
      rw [if_pos (by simpa using hsynthetic)] at hk
      exact Nat.lt_irrefl _ (haccepted _ hk)
    · refine h.users item hitem ?_
      have hlt := h.fresh _ (mem_append_left _ (List.mem_map_of_mem hitem))
      split at hk
      · exact hk
      · rcases mem_append.mp hk with hk | hk
        · exact hk
        · rw [mem_singleton.mp hk] at hlt
          exact absurd hlt (Nat.lt_irrefl _)
  · rcases mem_cons.mp (hperm.subset hitem) with rfl | hitem
    · intro id hid
      simp only [PromptSubmission.item] at hid ⊢
      split at hid
      · cases hid
      · exact (Option.some.inj hid).symm
    · exact h.rows item hitem
  · rw [hqueued]
    exact hlane
  · simp only [State.submit]
    split
    · refine ⟨nodup_append'.mpr ⟨h.sends.1, nodup_singleton _, ?_⟩, fun k hk => ?_⟩
      · rw [disjoint_singleton]
        exact fun hmem => Nat.lt_irrefl _ (h.sends.2 _ hmem)
      · rcases mem_append.mp hk with hk | hk
        · exact Nat.lt_succ_of_lt (h.sends.2 k hk)
        · rw [mem_singleton.mp hk]
          exact Nat.lt_succ_self _
    · exact ⟨h.sends.1, fun k hk => Nat.lt_succ_of_lt (h.sends.2 k hk)⟩

theorem sound_queueInput (h : Sound st) (p : PromptSubmission)
    (goalActive blockedInWait : Bool) :
    Sound (queueInput p goalActive blockedInWait st).1 ∧
      (st.runningPromptId.isSome →
        (queueInput p goalActive blockedInWait st).1.pendingInputs.head? =
          st.pendingInputs.head?) := by
  simp only [queueInput]
  split
  · obtain ⟨hswept, hhead⟩ := sound_sweep h
    obtain ⟨hsound, hhead'⟩ := sound_submit hswept p _
    exact ⟨hsound, fun hr => (hhead' hr).trans (hhead hr)⟩
  · exact sound_submit h p _

end GrokBuild.PromptQueue
