import GrokBuild.ChatHistory.Items
import Mathlib.Data.Finset.Dedup
import Mathlib.Data.List.TakeWhile

/-!
# Conversations: where a fork starts

`fork_filter_chat` cuts a parent's history behind its last complete turn, and
`count_complete_turns` finds the turns of what is left. The scan of the first is
`kept`, a recursion over the items: what it keeps answers every assistant item, and
nothing complete is cut off in front of the first that is not answered.
-/

namespace GrokBuild.ChatHistory

open TextLines List

/-! ## `fork_filter_chat` -/

/-- An item that may stand behind an assistant item, up to the next cycle or turn. -/
def inRun : ConversationItem → Bool
  | .toolResult _ | .reasoning _ | .backendToolCall _ => true
  | _ => false

/-- The run that the items begin with. -/
def run (items : List ConversationItem) : List ConversationItem := items.takeWhile inRun

/-- The ids of the expected calls that a run answers. -/
def found (expected : List Text) (run : List ConversationItem) : List Text :=
  (run.filterMap (·.toolResult?)).map (·.toolCallId) |>.filter (· ∈ expected)

/-- `found == expected`, two sets. -/
def closes (a : AssistantItem) (run : List ConversationItem) : Bool :=
  let expected := a.toolCalls.map (·.id)
  (found expected run).toFinset = expected.toFinset

/-- The loop of `fork_filter_chat` from the index `i` on. -/
def forkScan (i lastCompleteEnd : Nat) : List ConversationItem → Nat
  | [] => lastCompleteEnd
  | .system _ :: rest => forkScan (i + 1) (i + 1) rest
  | .assistant a :: rest =>
    if closes a (run rest) then
      let j := i + 1 + (run rest).length
      forkScan j j (rest.dropWhile inRun)
    else lastCompleteEnd
  | _ :: rest => forkScan (i + 1) lastCompleteEnd rest
  termination_by items => items.length
  decreasing_by
    all_goals simp only [length_cons]
    all_goals try have hle := (dropWhile_sublist (l := rest) inRun).length_le
    all_goals omega

/-- No user message that the runtime made up. -/
def retained : ConversationItem → Bool
  | .user u => u.syntheticReason.isNone
  | _ => true

def forkFilterChat (items : List ConversationItem) : List ConversationItem :=
  let items := items.filter retained
  items.take (forkScan 0 0 items)

/-! ## `count_complete_turns` -/

def isUser : ConversationItem → Bool
  | .user _ => true
  | _ => false

/-- An item that may stand between a user message and the answer to it. -/
def isQuiet : ConversationItem → Bool
  | .reasoning _ | .backendToolCall _ => true
  | _ => false

/-- What follows the user messages and the quiet items in front. -/
def answer (items : List ConversationItem) : List ConversationItem :=
  (items.dropWhile isUser).dropWhile isQuiet

theorem answer_suffix (items : List ConversationItem) : answer items <:+ items :=
  (dropWhile_suffix _).trans (dropWhile_suffix _)

/-- The loop of `count_complete_turns` from the index `i` on: where the turns start
and where their first cycles end. -/
def turnsFrom (i : Nat) : List ConversationItem → List (Nat × Nat)
  | [] => []
  | item :: rest =>
    if isUser item then
      match h : answer rest with
      | .assistant _ :: tail =>
        let stop := i + 1 + (rest.length - tail.length) + (run tail).length
        (i, stop) :: turnsFrom stop (tail.dropWhile inRun)
      | _ => []
    else turnsFrom (i + 1) rest
  termination_by items => items.length
  decreasing_by
    · have hle := (answer_suffix rest).length_le
      have htail := (dropWhile_sublist (l := tail) inRun).length_le
      rw [h] at hle
      simp only [length_cons] at hle ⊢
      omega
    · simp

def countCompleteTurns (items : List ConversationItem) : List Nat := (turnsFrom 0 items).map (·.2)

def notSystem : ConversationItem → Bool
  | .system _ => false
  | _ => true

/-! ## The claim of the scan -/

/-- Every call of the assistant item has its result in the run. -/
def Answered (a : AssistantItem) (run : List ConversationItem) : Prop :=
  ∀ call ∈ a.toolCalls, ∃ tr, .toolResult tr ∈ run ∧ tr.toolCallId = call.id

/-- Every assistant item is answered in the run directly behind it. -/
def AllAnswered (items : List ConversationItem) : Prop :=
  ∀ a rest, .assistant a :: rest <:+ items → Answered a (run rest)

/-- Each tool result follows an assistant item that asked for it, through nothing but
items that `between` allows. -/
def Requested (between : ConversationItem → Prop) (items : List ConversationItem) : Prop :=
  ∀ before tr, before ++ [.toolResult tr] <+: items → ∃ pre a mid,
    before = pre ++ .assistant a :: mid ∧ (∃ call ∈ a.toolCalls, call.id = tr.toolCallId) ∧
      ∀ item ∈ mid, between item

/-- A fork starts at a complete turn. -/
structure ForkSafe (items : List ConversationItem) : Prop where
  isPrefix : forkFilterChat items <+: items.filter retained
  ends : forkFilterChat items = [] ∨ (∃ before s, forkFilterChat items = before ++ [.system s]) ∨
    ∃ before a rest, items.filter retained = before ++ .assistant a :: rest ∧
      forkFilterChat items = before ++ .assistant a :: run rest ∧ Answered a (run rest)
  answered : AllAnswered (forkFilterChat items)
  /-- Behind the cut, an unanswered assistant item comes before every answered one. -/
  longest : ∀ left, items.filter retained = forkFilterChat items ++ left →
    ∀ a rest, .assistant a :: rest <:+ left → Answered a (run rest) →
      ∃ a' rest', .assistant a' :: rest' <:+ left ∧ .assistant a :: rest <:+ rest' ∧
        ¬ Answered a' (run rest')
  requested : Requested (fun item => inRun item ∨ retained item = false) items →
    Requested (fun item => inRun item) (forkFilterChat items)
  again : forkFilterChat (forkFilterChat items) = forkFilterChat items
  cuts : ∀ stop ∈ countCompleteTurns ((forkFilterChat items).filter notSystem),
    stop ≤ ((forkFilterChat items).filter notSystem).length ∧
      forkFilterChat (((forkFilterChat items).filter notSystem).take stop) =
        ((forkFilterChat items).filter notSystem).take stop

variable {items rest left : List ConversationItem} {item : ConversationItem} {a : AssistantItem}

theorem closes_iff {items : List ConversationItem} : closes a items ↔ Answered a items := by
  unfold closes
  rw [decide_eq_true_iff, Finset.ext_iff]
  simp only [List.mem_toFinset, found, mem_filter, List.mem_map, mem_filterMap,
    decide_eq_true_eq, Answered]
  constructor
  · intro h call hcall
    obtain ⟨⟨tr, ⟨x, hx, htr⟩, hid⟩, -⟩ := (h call.id).mpr ⟨call, hcall, rfl⟩
    cases x with
    | toolResult tr' =>
      cases htr
      exact ⟨tr, hx, hid⟩
    | _ => cases htr
  · intro h id
    constructor
    · rintro ⟨-, hexpected⟩
      simpa using hexpected
    · rintro ⟨call, hcall, rfl⟩
      obtain ⟨tr, htr, hid⟩ := h call hcall
      exact ⟨⟨tr, ⟨_, htr, rfl⟩, hid⟩, by simpa using ⟨call, hcall, rfl⟩⟩

/-! ## The scan as a recursion -/

/-- What the scan keeps of the items. -/
def kept : List ConversationItem → List ConversationItem
  | [] => []
  | .system s :: rest => .system s :: kept rest
  | .assistant a :: rest =>
    if closes a (run rest) then .assistant a :: if kept rest = [] then run rest else kept rest
    else []
  | item :: rest => if kept rest = [] then [] else item :: kept rest

theorem kept_transparent (h : inRun item ∨ isUser item) (rest : List ConversationItem) :
    kept (item :: rest) = if kept rest = [] then [] else item :: kept rest := by
  cases item <;> first | rfl | simp [inRun, isUser] at h

theorem item_cases (item : ConversationItem) :
    (∃ s, item = .system s) ∨ (∃ a, item = .assistant a) ∨ inRun item ∨ isUser item := by
  cases item <;> simp [inRun, isUser]

theorem kept_run_append (items : List ConversationItem) {runItems : List ConversationItem}
    (h : ∀ item ∈ runItems, inRun item) :
    kept (runItems ++ items) = if kept items = [] then [] else runItems ++ kept items := by
  induction runItems with
  | nil => simp
  | cons item tail ih =>
    rw [forall_mem_cons] at h
    rw [cons_append, kept_transparent (.inl h.1), ih h.2]
    by_cases hnil : kept items = [] <;> simp [hnil]

theorem inRun_of_mem_run (h : item ∈ run rest) : inRun item := mem_takeWhile_imp h

theorem run_append_dropWhile (items : List ConversationItem) :
    run items ++ items.dropWhile inRun = items := takeWhile_append_dropWhile

theorem forkScan_eq (i last : Nat) (items : List ConversationItem) :
    forkScan i last items = if kept items = [] then last else i + (kept items).length := by
  fun_induction forkScan i last items with
  | case1 => rfl
  | case2 i last s rest ih =>
    rw [ih, kept, if_neg (cons_ne_nil _ _), length_cons]
    by_cases hnil : kept rest = []
    · simp [hnil]
    · rw [if_neg hnil]
      omega
  | case3 i last a rest hcloses j ih =>
    have hrest := kept_run_append (rest.dropWhile inRun) 
      fun item (h : item ∈ run rest) => inRun_of_mem_run h
    rw [run_append_dropWhile] at hrest
    rw [ih, kept, if_pos hcloses, if_neg (cons_ne_nil _ _), length_cons, hrest]
    by_cases hnil : kept (rest.dropWhile inRun) = []
    · simp only [hnil, if_true]
      show i + 1 + (run rest).length = _
      omega
    · have happend : run rest ++ kept (rest.dropWhile inRun) ≠ [] := by simp [hnil]
      rw [if_neg hnil, if_neg hnil, if_neg happend, length_append]
      show i + 1 + (run rest).length + _ = _
      omega
  | case4 i last a rest hcloses =>
    rw [kept, if_neg hcloses, if_pos rfl]
  | case5 i last item rest hsystem hassistant ih =>
    have htransparent : inRun item ∨ isUser item := by
      rcases item_cases item with ⟨s, rfl⟩ | ⟨a, rfl⟩ | h
      · exact absurd rfl (hsystem s)
      · exact absurd rfl (hassistant a)
      · exact h
    rw [ih, kept_transparent htransparent]
    by_cases hnil : kept rest = []
    · simp [hnil]
    · rw [if_neg hnil, if_neg hnil, if_neg (cons_ne_nil _ _), length_cons]
      omega

/-! ## Laws of the scan -/

theorem kept_isPrefix (items : List ConversationItem) : kept items <+: items := by
  induction items with
  | nil => exact prefix_rfl
  | cons item rest ih =>
    rcases item_cases item with ⟨s, rfl⟩ | ⟨a, rfl⟩ | h
    · exact prefix_cons_inj _ |>.mpr ih
    · rw [kept]
      split
      · refine (prefix_cons_inj _).mpr ?_
        split
        · exact takeWhile_prefix _
        · exact ih
      · exact nil_prefix
    · rw [kept_transparent h]
      split
      · exact nil_prefix
      · exact (prefix_cons_inj _).mpr ih

theorem forkFilterChat_eq (items : List ConversationItem) :
    forkFilterChat items = kept (items.filter retained) := by
  show (items.filter retained).take (forkScan 0 0 (items.filter retained)) = _
  rw [forkScan_eq, Nat.zero_add]
  by_cases hnil : kept (items.filter retained) = []
  · rw [if_pos hnil, hnil, take_zero]
  · rw [if_neg hnil]
    exact (prefix_iff_eq_take.mp (kept_isPrefix _)).symm

/-- What is kept is empty, or ends with a system item or with an answered run. -/
theorem kept_ends (items : List ConversationItem) :
    kept items = [] ∨ (∃ before s, kept items = before ++ [.system s]) ∨
      ∃ before a rest, items = before ++ .assistant a :: rest ∧
        kept items = before ++ .assistant a :: run rest ∧ Answered a (run rest) := by
  induction items with
  | nil => exact .inl rfl
  | cons item rest ih =>
    by_cases hnil : kept rest = []
    · rcases item_cases item with ⟨s, rfl⟩ | ⟨a, rfl⟩ | h
      · exact .inr (.inl ⟨[], s, by rw [kept, hnil, nil_append]⟩)
      · by_cases hcloses : closes a (run rest) = true
        · refine .inr (.inr ⟨[], a, rest, rfl, ?_, closes_iff.mp hcloses⟩)
          rw [kept, if_pos hcloses, if_pos hnil, nil_append]
        · exact .inl (by rw [kept, if_neg hcloses])
      · exact .inl (by rw [kept_transparent h, if_pos hnil])
    · -- an item in front of something kept is kept, or cuts everything off
      have hcons : kept (item :: rest) = [] ∨ kept (item :: rest) = item :: kept rest := by
        rcases item_cases item with ⟨s, rfl⟩ | ⟨a, rfl⟩ | h
        · exact .inr rfl
        · rw [kept, if_neg hnil]
          split
          · exact .inr rfl
          · exact .inl rfl
        · exact .inr (by rw [kept_transparent h, if_neg hnil])
      rcases hcons with hcons | hcons
      · exact .inl hcons
      rw [hcons]
      rcases ih with ih | ⟨before, s, ih⟩ | ⟨before, a, tail, hitems, ih, hanswered⟩
      · exact absurd ih hnil
      · exact .inr (.inl ⟨item :: before, s, by rw [ih, cons_append]⟩)
      · exact .inr (.inr ⟨item :: before, a, tail, by rw [hitems, cons_append],
          by rw [ih, cons_append], hanswered⟩)

theorem allAnswered_cons : AllAnswered (item :: rest) ↔
    (∀ a, item = .assistant a → Answered a (run rest)) ∧ AllAnswered rest := by
  constructor
  · intro h
    refine ⟨?_, fun a tail htail => h a tail (htail.trans (suffix_cons _ _))⟩
    rintro a rfl
    exact h a rest suffix_rfl
  · rintro ⟨hitem, hrest⟩ a tail htail
    rcases suffix_cons_iff.mp htail with heq | htail
    · cases heq
      exact hitem a rfl
    · exact hrest a tail htail

theorem allAnswered_of_run (h : ∀ item ∈ items, inRun item) : AllAnswered items := by
  intro a rest hsuffix
  have hrun := h _ (hsuffix.subset mem_cons_self)
  cases hrun

theorem run_of_run (h : ∀ item ∈ items, inRun item) : run items = items :=
  takeWhile_eq_self_iff.mpr h

theorem run_cons (h : inRun item) : run (item :: rest) = item :: run rest :=
  takeWhile_cons_of_pos h

theorem run_of_not (h : ¬ inRun item) : run (item :: rest) = [] := takeWhile_cons_of_neg h

theorem run_append_of_not {before : List ConversationItem} (h : ¬ inRun item) :
    run (before ++ item :: rest) = run before := by
  induction before with
  | nil => exact run_of_not h
  | cons x before ih =>
    by_cases hx : inRun x = true
    · rw [cons_append, run_cons hx, run_cons hx, ih]
    · rw [cons_append, run_of_not hx, run_of_not hx]

theorem run_kept (h : kept items ≠ []) : run (kept items) = run items := by
  induction items with
  | nil => exact absurd rfl h
  | cons item rest ih =>
    by_cases hrun : inRun item = true
    · rw [kept_transparent (.inl hrun)] at h ⊢
      by_cases hnil : kept rest = []
      · rw [if_pos hnil] at h
        exact absurd rfl h
      · rw [if_neg hnil, run_cons hrun, run_cons hrun, ih hnil]
    · obtain ⟨tail, htail⟩ := kept_isPrefix (item :: rest)
      cases hkept : kept (item :: rest) with
      | nil => exact absurd hkept h
      | cons item' kept' =>
        rw [hkept, cons_append, List.cons.injEq] at htail
        rw [htail.1, run_of_not hrun, run_of_not hrun]

theorem allAnswered_kept (items : List ConversationItem) : AllAnswered (kept items) := by
  induction items with
  | nil => exact allAnswered_of_run (by simp [kept])
  | cons item rest ih =>
    rcases item_cases item with ⟨s, rfl⟩ | ⟨a, rfl⟩ | h
    · exact allAnswered_cons.mpr ⟨by simp, ih⟩
    · by_cases hcloses : closes a (run rest) = true
      · rw [kept, if_pos hcloses, allAnswered_cons]
        by_cases hnil : kept rest = []
        · have hall : ∀ item ∈ run rest, inRun item := fun item => inRun_of_mem_run
          rw [if_pos hnil, run_of_run hall]
          refine ⟨?_, allAnswered_of_run hall⟩
          rintro a' ⟨⟩
          exact closes_iff.mp hcloses
        · rw [if_neg hnil, run_kept hnil]
          refine ⟨?_, ih⟩
          rintro a' ⟨⟩
          exact closes_iff.mp hcloses
      · rw [kept, if_neg hcloses]
        exact allAnswered_of_run (by simp)
    · rw [kept_transparent h]
      split
      · exact allAnswered_of_run (by simp)
      · refine allAnswered_cons.mpr ⟨?_, ih⟩
        rintro a rfl
        simp [inRun, isUser] at h

/-- In front of something that is kept whole, everything answered is kept. -/
theorem kept_append {tail : List ConversationItem} (htail : kept tail = tail) (hne : tail ≠ [])
    (before : List ConversationItem) (h : AllAnswered (before ++ tail)) :
    kept (before ++ tail) = before ++ tail := by
  induction before with
  | nil => exact htail
  | cons item before ih =>
    rw [cons_append, allAnswered_cons] at h
    have hrest := ih h.2
    have hnil : before ++ tail ≠ [] := by simp [hne]
    rw [cons_append]
    rcases item_cases item with ⟨s, rfl⟩ | ⟨a, rfl⟩ | htransparent
    · rw [kept, hrest]
    · rw [kept, if_pos (closes_iff.mpr (h.1 a rfl)), hrest, if_neg hnil]
    · rw [kept_transparent htransparent, hrest, if_neg hnil]

theorem kept_run (h : ∀ item ∈ items, inRun item) : kept items = [] := by
  have happend := kept_run_append [] h
  rw [append_nil] at happend
  exact happend

theorem kept_cycle {before tail : List ConversationItem} (htail : ∀ item ∈ tail, inRun item)
    (h : AllAnswered (before ++ .assistant a :: tail)) :
    kept (before ++ .assistant a :: tail) = before ++ .assistant a :: tail := by
  refine kept_append ?_ (cons_ne_nil _ _) before h
  have hanswered := h a tail (suffix_append _ _)
  rw [kept, if_pos (closes_iff.mpr hanswered), if_pos (kept_run htail), run_of_run htail]

theorem kept_kept (items : List ConversationItem) : kept (kept items) = kept items := by
  have hanswered := allAnswered_kept items
  rcases kept_ends items with hends | ⟨before, s, hends⟩ | ⟨before, a, rest, -, hends, -⟩
  · rw [hends]
    rfl
  · rw [hends] at hanswered ⊢
    exact kept_append rfl (cons_ne_nil _ _) before hanswered
  · rw [hends] at hanswered ⊢
    exact kept_cycle (fun item => inRun_of_mem_run) hanswered

theorem suffix_of_run {x : ConversationItem} {before : List ConversationItem}
    (hbefore : ∀ item ∈ before, inRun item) (hx : ¬ inRun x) (h : x :: rest <:+ before ++ left) :
    x :: rest <:+ left := by
  induction before with
  | nil => exact h
  | cons item before ih =>
    rw [forall_mem_cons] at hbefore
    rcases suffix_cons_iff.mp h with heq | h
    · cases heq
      exact absurd hbefore.1 hx
    · exact ih hbefore.2 h

/-- Behind what is kept, the first assistant item is not answered. -/
theorem longest_left (items : List ConversationItem) (hleft : items = kept items ++ left)
    (hsuffix : .assistant a :: rest <:+ left) (hanswered : Answered a (run rest)) :
    ∃ a' rest', .assistant a' :: rest' <:+ left ∧ .assistant a :: rest <:+ rest' ∧
      ¬ Answered a' (run rest') := by
  induction items generalizing left with
  | nil =>
    rw [nil_eq_append_iff] at hleft
    rw [hleft.2] at hsuffix
    cases suffix_nil.mp hsuffix
  | cons item tail ih =>
    rcases item_cases item with ⟨s, rfl⟩ | ⟨a₀, rfl⟩ | h
    · rw [kept, cons_append, List.cons.injEq] at hleft
      exact ih hleft.2 hsuffix
    · by_cases hcloses : closes a₀ (run tail) = true
      · rw [kept, if_pos hcloses, cons_append, List.cons.injEq] at hleft
        by_cases hnil : kept tail = []
        · -- the cut is behind this item's run, which has no assistant item
          rw [if_pos hnil] at hleft
          have htail : left <:+ tail := ⟨_, hleft.2.symm⟩
          obtain ⟨a', rest', hfound, hlater, hopen⟩ :=
            ih (by rw [hnil, nil_append]) (hsuffix.trans htail)
          rw [hleft.2] at hfound
          exact ⟨a', rest', suffix_of_run (fun item => inRun_of_mem_run) (by simp [inRun]) hfound,
            hlater, hopen⟩
        · rw [if_neg hnil] at hleft
          exact ih hleft.2 hsuffix
      · rw [kept, if_neg hcloses, nil_append] at hleft
        subst hleft
        rcases suffix_cons_iff.mp hsuffix with heq | hsuffix
        · cases heq
          exact absurd (closes_iff.mpr hanswered) hcloses
        · exact ⟨a₀, tail, suffix_rfl, hsuffix, fun h => hcloses (closes_iff.mpr h)⟩
    · rw [kept_transparent h] at hleft
      by_cases hnil : kept tail = []
      · rw [if_pos hnil, nil_append] at hleft
        subst hleft
        rcases suffix_cons_iff.mp hsuffix with heq | hsuffix
        · cases heq
          simp [inRun, isUser] at h
        · obtain ⟨a', rest', hfound, hlater, hopen⟩ :=
            ih (by rw [hnil, nil_append]) hsuffix
          exact ⟨a', rest', hfound.trans (suffix_cons _ _), hlater, hopen⟩
      · rw [if_neg hnil, cons_append, List.cons.injEq] at hleft
        exact ih hleft.2 hsuffix

theorem requested_kept (h : Requested (fun item => inRun item ∨ retained item = false) items) :
    Requested (fun item => inRun item) (kept (items.filter retained)) := by
  intro before tr hpre
  obtain ⟨post, hpost⟩ := hpre.trans (kept_isPrefix _)
  rw [append_assoc, singleton_append] at hpost
  obtain ⟨front, back, hitems, hfront, hback⟩ := filter_eq_append_iff.mp hpost.symm
  obtain ⟨skipped, back', rfl, hskipped, -, -⟩ := filter_eq_cons_iff.mp hback
  obtain ⟨pre, a, mid, hsplit, hcall, hmid⟩ := h (front ++ skipped) tr
    ⟨back', by rw [hitems]; simp⟩
  have hnone : skipped.filter retained = [] := by
    rw [filter_eq_nil_iff]
    exact hskipped
  refine ⟨pre.filter retained, a, mid.filter retained, ?_, hcall, ?_⟩
  · have hfilter := congrArg (List.filter retained) hsplit
    rw [filter_append, hnone, append_nil, hfront, filter_append] at hfilter
    exact hfilter
  · intro item hitem
    rw [mem_filter] at hitem
    refine (hmid item hitem.1).resolve_right ?_
    rw [hitem.2]
    exact Bool.noConfusion

/-! ## The ends of the turns -/

theorem turnsFrom_spec (i : Nat) (items : List ConversationItem) {start stop : Nat}
    (h : (start, stop) ∈ turnsFrom i items) : i ≤ start ∧ start < stop ∧
      ∃ before a tail, items = before ++ .assistant a :: tail ∧
        stop = i + (before.length + 1 + (run tail).length) := by
  fun_induction turnsFrom i items with
  | case1 => cases h
  | case2 i item rest huser a tail hanswer j ih =>
    have hsuffix := answer_suffix rest
    rw [hanswer] at hsuffix
    obtain ⟨pre, hpre⟩ := hsuffix
    have hlength := congrArg List.length hpre
    simp only [length_append, length_cons] at hlength
    have hj : j = i + 1 + (rest.length - tail.length) + (run tail).length := rfl
    rcases mem_cons.mp h with heq | h
    · obtain ⟨rfl, rfl⟩ := Prod.mk.inj heq
      refine ⟨Nat.le_refl _, by omega, item :: pre, a, tail, by rw [← hpre, cons_append], ?_⟩
      rw [length_cons]
      omega
    · obtain ⟨hstart, hstop, before, a', tail', hitems, hlen⟩ := ih h
      have htail := run_append_dropWhile tail
      rw [hitems] at htail
      have hrest : rest = pre ++ .assistant a :: (run tail ++ (before ++ .assistant a' :: tail')) := by
        rw [htail, hpre]
      refine ⟨by omega, hstop, item :: pre ++ .assistant a :: (run tail ++ before), a', tail', ?_, ?_⟩
      · rw [hrest]
        simp
      · simp only [length_cons, length_append]
        omega
  | case3 => cases h
  | case4 i item rest huser ih =>
    obtain ⟨hstart, hstop, before, a, tail, hitems, hlen⟩ := ih h
    refine ⟨by omega, hstop, item :: before, a, tail, by rw [hitems, cons_append], ?_⟩
    rw [length_cons]
    omega

theorem mem_run_filter (h : item ∈ run items) : item ∈ run (items.filter notSystem) := by
  induction items with
  | nil => cases h
  | cons x rest ih =>
    by_cases hx : inRun x = true
    · have hkeep : notSystem x = true := by
        cases x <;> first | rfl | cases hx
      rw [filter_cons_of_pos hkeep, run_cons hx]
      rw [run_cons hx] at h
      rcases mem_cons.mp h with rfl | h
      · exact mem_cons_self
      · exact mem_cons_of_mem _ (ih h)
    · rw [run_of_not hx] at h
      cases h

theorem allAnswered_filter (h : AllAnswered items) : AllAnswered (items.filter notSystem) := by
  induction items with
  | nil => exact h
  | cons item rest ih =>
    rw [allAnswered_cons] at h
    rw [filter_cons]
    split
    · refine allAnswered_cons.mpr ⟨?_, ih h.2⟩
      intro a ha call hcall
      obtain ⟨tr, htr, hid⟩ := h.1 a ha call hcall
      exact ⟨tr, mem_run_filter htr, hid⟩
    · exact ih h.2

theorem allAnswered_cut {before tail : List ConversationItem}
    (h : AllAnswered (before ++ .assistant a :: tail)) :
    AllAnswered (before ++ .assistant a :: run tail) := by
  have hall : ∀ item ∈ run tail, inRun item := fun item => inRun_of_mem_run
  induction before with
  | nil =>
    rw [nil_append, allAnswered_cons] at h ⊢
    rw [run_of_run hall]
    exact ⟨h.1, allAnswered_of_run hall⟩
  | cons item before ih =>
    rw [cons_append, allAnswered_cons] at h ⊢
    refine ⟨?_, ih h.2⟩
    rw [run_append_of_not (by simp [inRun])] at h ⊢
    exact h.1

theorem filter_retained_of_mem (h : ∀ item ∈ items, retained item) : items.filter retained = items :=
  filter_eq_self.mpr h

/-- A fork starts at a complete turn: it is cut behind the last one, and at every
end of a turn that is counted in it. -/
theorem forkFilterChat_safe (items : List ConversationItem) : ForkSafe items := by
  have hkept := forkFilterChat_eq items
  have hretained : ∀ item ∈ forkFilterChat items, retained item = true := by
    rw [hkept]
    intro item hitem
    exact (mem_filter.mp ((kept_isPrefix _).subset hitem)).2
  have hanswered : AllAnswered (forkFilterChat items) := by
    rw [hkept]
    exact allAnswered_kept _
  constructor
  · rw [hkept]
    exact kept_isPrefix _
  · rw [hkept]
    exact kept_ends _
  · exact hanswered
  · intro left hleft a rest hsuffix hrun
    rw [hkept] at hleft
    exact longest_left _ hleft hsuffix hrun
  · intro h
    rw [hkept]
    exact requested_kept h
  · rw [forkFilterChat_eq (forkFilterChat items), filter_retained_of_mem hretained, hkept, kept_kept]
  · intro stop hstop
    obtain ⟨⟨start, stop'⟩, hturn, rfl⟩ := List.mem_map.mp hstop
    obtain ⟨-, -, before, a, tail, hitems, hlen⟩ := turnsFrom_spec _ _ hturn
    have hcut : ((forkFilterChat items).filter notSystem).take stop' =
        before ++ .assistant a :: run tail := by
      have hrun : tail.take (run tail).length = run tail :=
        (prefix_iff_eq_take.mp (List.takeWhile_prefix inRun)).symm
      rw [hitems, hlen, Nat.zero_add, Nat.add_assoc, take_length_add_append, Nat.add_comm 1,
        take_succ_cons, hrun]
    have hall := allAnswered_filter hanswered
    rw [hitems] at hall
    refine ⟨?_, ?_⟩
    · have hle := (List.takeWhile_prefix inRun (l := tail)).length_le
      rw [hitems, length_append, length_cons]
      show stop' ≤ _
      have hsame : (run tail).length ≤ tail.length := hle
      omega
    · show forkFilterChat (((forkFilterChat items).filter notSystem).take stop') = _
      rw [forkFilterChat_eq, filter_retained_of_mem, hcut]
      · exact kept_cycle (fun item => inRun_of_mem_run) (allAnswered_cut hall)
      · intro item hitem
        exact hretained item (mem_filter.mp (mem_of_mem_take hitem)).1

end GrokBuild.ChatHistory
