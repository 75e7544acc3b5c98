import GrokBuild.ChatActor.Passes

/-!
# Loading a history that has grown

An actor holds the repaired form of the history it was spawned on. When both
grow by the same items, loading the grown history gives the grown conversation
unless a tool result comes directly behind calls that were filled in at the
first load (`reload_iff`): the second load fills them in behind it.
-/

namespace GrokBuild.ChatActor

open TextLines ChatHistory ConversationItem Runs KeepLast List

theorem append_comm_of_disjoint {α : Type} {xs ys : List α} (h : xs.Disjoint ys)
    (heq : xs ++ ys = ys ++ xs) : xs = [] ∨ ys = [] := by
  cases xs with
  | nil => exact .inl rfl
  | cons x xs =>
    cases ys with
    | nil => exact .inr rfl
    | cons y ys =>
      obtain ⟨rfl, -⟩ := List.cons.inj heq
      exact absurd mem_cons_self (h mem_cons_self)

theorem integrityRun_append {reason : DanglingToolCallReason} {item : ConversationItem}
    {run more : List ToolResultItem}
    (h : SettledRun item (integrityRun reason item run ++ more)) :
    integrityRun reason item (run ++ more) = integrityRun reason item run ++ more ↔
      more = [] ∨ ∀ id ∈ item.callIds, id ∈ run.map (·.toolCallId) := by
  by_cases hids : item.callIds = []
  · have hno : ∀ run, integrityRun reason item run = run := fun run => by
      rw [integrityRun, dedupRun_noCalls hids, fillRun_noCalls reason hids]
    rw [hno, hno, hids]
    exact iff_of_true rfl (.inr (forall_mem_nil _))
  · cases item with
    | system | user | toolResult | backendToolCall | reasoning => exact absurd rfl hids
    | assistant a =>
      have hcalls : a.toolCalls ≠ [] := by simpa [callIds] using hids
      have hrun : ∀ run, integrityRun reason (.assistant a) run =
          keepLast (·.toolCallId) run ++ synthetic reason a.toolCalls (run.map (·.toolCallId)) := by
        intro run
        have hsame : ∀ toolCalls : List ToolCall,
            synthetic reason toolCalls ((keepLast (·.toolCallId) run).map (·.toolCallId)) =
              synthetic reason toolCalls (run.map (·.toolCallId)) := fun toolCalls => by
          rw [synthetic, synthetic]
          simp only [mem_map_keepLast]
        rw [integrityRun, dedupRun_assistant hcalls, fillRun, hsame]
      obtain ⟨hnodup, -⟩ := h.resolve_left hids
      rw [hrun, map_append, nodup_append'] at hnodup
      obtain ⟨-, hmore, hdisjoint⟩ := hnodup
      have hnew : (run.map (·.toolCallId)).Disjoint (more.map (·.toolCallId)) := by
        intro id hid
        refine hdisjoint ?_
        rw [map_append, mem_append, mem_map_keepLast]
        exact .inl hid
      have hfilled : ((synthetic reason a.toolCalls (run.map (·.toolCallId))).map
          (·.toolCallId)).Disjoint (more.map (·.toolCallId)) := by
        intro id hid
        refine hdisjoint ?_
        rw [map_append, mem_append]
        exact .inr hid
      -- the new results answer none of the calls that were filled in
      have hsynthetic : synthetic reason a.toolCalls ((run ++ more).map (·.toolCallId)) =
          synthetic reason a.toolCalls (run.map (·.toolCallId)) := by
        rw [synthetic, synthetic]
        congr 1
        refine filter_congr fun tc htc => ?_
        rw [decide_eq_decide, map_append, mem_append, not_or, and_iff_left_iff_imp]
        intro hmissing hanswered
        refine hfilled ?_ hanswered
        rw [synthetic_ids]
        exact mem_filter.mpr ⟨List.mem_map_of_mem htc, by simpa using hmissing⟩
      rw [hrun, hrun, hsynthetic, keepLast_append_of_disjoint _ hmore hnew, append_assoc,
        append_assoc, append_cancel_left_eq, callIds]
      have hnone : _ ↔ ∀ id ∈ a.toolCalls.map (·.id), id ∈ run.map (·.toolCallId) :=
        @synthetic_eq_nil_iff reason a.toolCalls (run.map (·.toolCallId))
      rw [← hnone]
      constructor
      · intro heq
        refine append_comm_of_disjoint (fun tr htr hsynth => ?_) heq
        exact hfilled (List.mem_map_of_mem hsynth) (List.mem_map_of_mem htr)
      · rintro (hnil | hnil)
        · rw [hnil, nil_append, append_nil]
        · rw [hnil, nil_append, append_nil]

/-- The last item with results of a history leaves calls without any. -/
def LeftUnanswered (history : Conversation) : Prop :=
  ∃ b, (cut toolResults history).blocks.getLast? = some b ∧
    ∃ id ∈ b.1.callIds, id ∉ b.2.map (·.toolCallId)

/-- The first of the items is a tool result. -/
def StartsWithResult (items : Conversation) : Prop :=
  ∃ tr, items.head? = some (.toolResult tr)

theorem lead_ne_nil_iff {items : Conversation} :
    (cut toolResults items).lead ≠ [] ↔ StartsWithResult items := by
  cases items with
  | nil => simp [StartsWithResult]
  | cons item items =>
    rcases toolResults.head_or_put item with hhead | ⟨tr, rfl⟩
    · rw [cut_head _ hhead]
      refine iff_of_false (by simp) ?_
      rintro ⟨tr, htr⟩
      obtain rfl := Option.some.inj htr
      exact toolResults.not_head_put tr hhead
    · rw [cut_put]
      exact iff_of_true (by simp) ⟨tr, rfl⟩

theorem repairedAtStart_eq (items : Conversation) :
    repairedAtStart items =
      mapRuns toolResults (fun r => r) (integrityRun .userCancelled) items :=
  repaired_eq .userCancelled items

/-- Loading an extended history gives the loaded history extended, unless a
tool result comes directly behind calls that the load filled in. -/
theorem reload_iff {history pushed : Conversation}
    (h : Settled (repairedAtStart history ++ pushed)) :
    repairedAtStart (history ++ pushed) = repairedAtStart history ++ pushed ↔
      ¬ (LeftUnanswered history ∧ StartsWithResult pushed) := by
  rw [Settled, repairedAtStart_eq, cut_append, cut_mapRuns] at h
  have hcut : repairedAtStart (history ++ pushed) = repairedAtStart history ++ pushed ↔
      ((cut toolResults history).append (cut toolResults pushed)).mapRuns (fun r => r)
          (integrityRun .userCancelled) =
        ((cut toolResults history).mapRuns (fun r => r) (integrityRun .userCancelled)).append
          (cut toolResults pushed) := by
    rw [repairedAtStart_eq, repairedAtStart_eq, ← cut_append, ← cut_mapRuns, ← cut_mapRuns,
      ← cut_append]
    exact ⟨congrArg _, cut_injective toolResults⟩
  rw [hcut]
  -- the runs that were pushed as a whole are left as they are
  have hpushed : ∀ bs : List (ConversationItem × List ToolResultItem),
      (∀ b ∈ bs, SettledRun b.1 b.2) →
      bs.map (fun b => (b.1, integrityRun .userCancelled b.1 b.2)) = bs := by
    intro bs hbs
    conv_rhs => rw [← List.map_id bs]
    exact map_congr_left fun b hb => by rw [integrityRun_of_settled _ (hbs b hb)]; rfl
  rcases eq_nil_or_concat' (cut toolResults history).blocks with hnil | ⟨bs, b, hbs⟩
  · have hnone : ¬ LeftUnanswered history := by
      rintro ⟨b, hb, -⟩
      rw [hnil] at hb
      cases hb
    have hmapnil : ((cut toolResults history).mapRuns (fun r => r)
        (integrityRun .userCancelled)).blocks = [] := by
      rw [Cut.mapRuns, hnil]
      rfl
    rw [Cut.append_of_nil hmapnil] at h ⊢
    rw [Cut.append_of_nil hnil]
    refine iff_of_true ?_ fun hbad => hnone hbad.1
    simp only [Cut.mapRuns, hpushed _ h]
  · have hmap : ((cut toolResults history).mapRuns (fun r => r)
        (integrityRun .userCancelled)).blocks =
          bs.map (fun b => (b.1, integrityRun .userCancelled b.1 b.2)) ++
            [(b.1, integrityRun .userCancelled b.1 b.2)] := by
      rw [Cut.mapRuns, hbs, map_append]
      rfl
    rw [Cut.append_of_concat _ _ hmap] at h ⊢
    rw [Cut.append_of_concat _ _ hbs]
    have hlast : SettledRun b.1 (integrityRun .userCancelled b.1 b.2 ++
        (cut toolResults pushed).lead) :=
      h (b.1, integrityRun .userCancelled b.1 b.2 ++ (cut toolResults pushed).lead)
        (mem_append_right _ mem_cons_self)
    have hlater : ∀ b' ∈ (cut toolResults pushed).blocks, SettledRun b'.1 b'.2 :=
      fun b' hb' => h b' (by simp [hb'])
    have hrun := integrityRun_append hlast
    have hleft : LeftUnanswered history ↔ ¬ ∀ id ∈ b.1.callIds, id ∈ b.2.map (·.toolCallId) := by
      rw [LeftUnanswered, hbs, getLast?_concat]
      simp only [Option.some.injEq, exists_eq_left', not_forall, exists_prop]
    rw [hleft, ← lead_ne_nil_iff, not_and_or, not_not, not_not, or_comm, ← hrun]
    simp only [Cut.mapRuns, map_append, map_cons, hpushed _ hlater, Cut.mk.injEq,
      true_and, append_cancel_left_eq, List.cons.injEq, Prod.mk.injEq, and_true]

end GrokBuild.ChatActor
