import GrokBuild.Rewind.Turns

/-!
# Rewind: one rewind after another

Each of the three counts gives every item a label, the index of the turn that
the item starts, and cuts at the first label from the target on. So a cut is
monotone in its target, and a second cut finds the same item, as long as it
counts the same way as the first. A conversation that was cut in front of its
only marker is counted the legacy way from then on.
-/

namespace GrokBuild.Rewind

open TextLines ChatHistory List Option

/-- The label of a turn that the target does not keep. -/
def reaches (target : Nat) : Option Nat → Bool
  | some idx => target ≤ idx
  | none => false

/-- The cut, on labels. -/
def cut (target : Nat) (labels : List (Option Nat)) : Nat := labels.findIdx (reaches target)

variable {target target' : Nat}

theorem reaches_mono (h : target ≤ target') {label : Option Nat}
    (hlabel : reaches target' label = true) : reaches target label = true := by
  cases label with
  | none => cases hlabel
  | some idx =>
    have hle : target' ≤ idx := of_decide_eq_true hlabel
    exact decide_eq_true (Nat.le_trans h hle)

theorem cut_mono (h : target ≤ target') (labels : List (Option Nat)) :
    cut target labels ≤ cut target' labels :=
  findIdx_le_findIdx fun _ _ hlabel => reaches_mono h hlabel

theorem cut_take (target n : Nat) (labels : List (Option Nat)) :
    cut target (labels.take n) = min n (cut target labels) := findIdx_take

theorem cut_eq_length_iff (target : Nat) (labels : List (Option Nat)) :
    cut target labels = labels.length ↔ ∀ idx, some idx ∈ labels → idx < target := by
  rw [cut, findIdx_eq_length]
  constructor
  · intro hall idx hidx
    have hno := hall (some idx) hidx
    exact Nat.lt_of_not_le (of_decide_eq_false hno)
  · intro hall label hlabel
    cases label with
    | none => rfl
    | some idx => exact decide_eq_false (Nat.not_le.mpr (hall idx hlabel))

/-! ## The labels of the three counts -/

def legacyLabels (s : TurnScan) : List ConversationItem → List (Option Nat)
  | [] => []
  | .user u :: items =>
    let seen := s.pastPreamble u.syntheticReason
    match s.unmarkedIndex u.syntheticReason with
    | some idx => some idx :: legacyLabels { seen with nextUnmarkedIndex := idx + 1 } items
    | none => none :: legacyLabels seen items
  | _ :: items => none :: legacyLabels s items

def progressiveLabels (s : TurnScan) : List ConversationItem → List (Option Nat)
  | [] => []
  | .user u :: items =>
    match u.promptIndex with
    | some idx => some idx :: progressiveLabels { s with seenMarker := true } items
    | none =>
      if s.seenMarker then none :: progressiveLabels s items
      else
        let seen := s.pastPreamble u.syntheticReason
        match s.unmarkedIndex u.syntheticReason with
        | some idx =>
          some idx :: progressiveLabels { seen with nextUnmarkedIndex := idx + 1 } items
        | none => none :: progressiveLabels seen items
  | _ :: items => none :: progressiveLabels s items

theorem cut_cons_none (target : Nat) (labels : List (Option Nat)) :
    cut target (none :: labels) = cut target labels + 1 := by
  simp [cut, reaches, findIdx_cons]

theorem cut_cons_some (target idx : Nat) (labels : List (Option Nat)) :
    cut target (some idx :: labels) = if target ≤ idx then 0 else cut target labels + 1 := by
  by_cases h : target ≤ idx <;> simp [cut, reaches, findIdx_cons, h]

theorem truncateMarkersOnly_eq (target : Nat) (items : List ConversationItem) :
    conversationTruncateMarkersOnly target items = cut target (items.map markerOf) := by
  induction items with
  | nil => rfl
  | cons item items ih =>
    cases item with
    | user u =>
      rw [conversationTruncateMarkersOnly, ih, map_cons, markerOf]
      cases u.promptIndex with
      | none => rw [cut_cons_none]
      | some idx => rw [cut_cons_some]
    | system | assistant | toolResult | backendToolCall | reasoning =>
      show _ = cut target (none :: items.map markerOf)
      rw [cut_cons_none, ← ih]
      rfl

theorem truncateLegacy_eq (target : Nat) (s : TurnScan) (items : List ConversationItem) :
    conversationTruncateLegacy target s items = cut target (legacyLabels s items) := by
  induction items generalizing s with
  | nil => rfl
  | cons item items ih =>
    cases item with
    | user u =>
      rw [conversationTruncateLegacy, legacyLabels]
      cases s.unmarkedIndex u.syntheticReason with
      | none =>
        dsimp only
        rw [cut_cons_none, ih]
      | some idx =>
        dsimp only
        rw [cut_cons_some, ih]
    | system | assistant | toolResult | backendToolCall | reasoning =>
      show _ = cut target (none :: legacyLabels s items)
      rw [cut_cons_none, ← ih]
      rfl

theorem truncateProgressive_eq (target : Nat) (s : TurnScan) (items : List ConversationItem) :
    conversationTruncateProgressive target s items = cut target (progressiveLabels s items) := by
  induction items generalizing s with
  | nil => rfl
  | cons item items ih =>
    cases item with
    | user u =>
      rw [conversationTruncateProgressive, progressiveLabels]
      cases u.promptIndex with
      | some idx =>
        dsimp only
        rw [cut_cons_some, ih]
      | none =>
        dsimp only
        by_cases hseen : s.seenMarker = true
        · rw [if_pos hseen, if_pos hseen, cut_cons_none, ih]
        · rw [if_neg hseen, if_neg hseen]
          cases s.unmarkedIndex u.syntheticReason with
          | none =>
            dsimp only
            rw [cut_cons_none, ih]
          | some idx =>
            dsimp only
            rw [cut_cons_some, ih]
    | system | assistant | toolResult | backendToolCall | reasoning =>
      show _ = cut target (none :: progressiveLabels s items)
      rw [cut_cons_none, ← ih]
      rfl

/-- The labels that `conversation_truncate_for_prompt` cuts by. -/
def labels (conversation : List ConversationItem) : List (Option Nat) :=
  match conversation.findSome? markerOf with
  | none => legacyLabels .start conversation
  | some firstMarkerIdx =>
    if countLegacyTurnsUntilMarker .start conversation ≠ firstMarkerIdx then
      conversation.map markerOf
    else progressiveLabels .start conversation

theorem truncateForPrompt_eq (conversation : List ConversationItem) (target : Nat) :
    conversationTruncateForPrompt conversation target = cut target (labels conversation) := by
  rw [conversationTruncateForPrompt, labels]
  cases conversation.findSome? markerOf with
  | none => exact truncateLegacy_eq target .start conversation
  | some firstMarkerIdx =>
    dsimp only
    by_cases hgap : countLegacyTurnsUntilMarker .start conversation ≠ firstMarkerIdx
    · rw [if_pos hgap, if_pos hgap, truncateMarkersOnly_eq]
    · rw [if_neg hgap, if_neg hgap, truncateProgressive_eq]

theorem take_of_cons {f : TurnScan → List ConversationItem → List (Option Nat)}
    (hnil : ∀ s, f s [] = [])
    (hcons : ∀ s item, ∃ label s', ∀ items, f s (item :: items) = label :: f s' items)
    (s : TurnScan) (items : List ConversationItem) (n : Nat) :
    f s (items.take n) = (f s items).take n := by
  induction items generalizing s n with
  | nil => simp [hnil]
  | cons item items ih =>
    cases n with
    | zero => exact hnil s
    | succ n =>
      obtain ⟨label, s', h⟩ := hcons s item
      rw [take_succ_cons, h, h, ih, take_succ_cons]

theorem legacyLabels_take (s : TurnScan) (items : List ConversationItem) (n : Nat) :
    legacyLabels s (items.take n) = (legacyLabels s items).take n := by
  refine take_of_cons (fun _ => rfl) (fun s item => ?_) s items n
  cases item with
  | user u =>
    simp only [legacyLabels]
    cases s.unmarkedIndex u.syntheticReason <;> exact ⟨_, _, fun _ => rfl⟩
  | system | assistant | toolResult | backendToolCall | reasoning => exact ⟨none, s, fun _ => rfl⟩

theorem progressiveLabels_take (s : TurnScan) (items : List ConversationItem) (n : Nat) :
    progressiveLabels s (items.take n) = (progressiveLabels s items).take n := by
  refine take_of_cons (fun _ => rfl) (fun s item => ?_) s items n
  cases item with
  | user u =>
    simp only [progressiveLabels]
    cases u.promptIndex with
    | some idx => exact ⟨_, _, fun _ => rfl⟩
    | none =>
      by_cases hseen : s.seenMarker = true
      · simp only [hseen, if_true]
        exact ⟨_, _, fun _ => rfl⟩
      · simp only [hseen]
        cases s.unmarkedIndex u.syntheticReason <;> exact ⟨_, _, fun _ => rfl⟩
  | system | assistant | toolResult | backendToolCall | reasoning => exact ⟨none, s, fun _ => rfl⟩

/-! ## In front of the first marker -/

/-- No item is marked. -/
def Unmarked (items : List ConversationItem) : Prop := ∀ item ∈ items, markerOf item = none

variable {items : List ConversationItem}

theorem Unmarked.findSome? (h : Unmarked items) :
    items.findSome? markerOf = none := findSome?_eq_none_iff.mpr h

theorem progressiveLabels_unmarked (h : Unmarked items) {s : TurnScan} (hs : s.seenMarker = false) :
    progressiveLabels s items = legacyLabels s items := by
  induction items generalizing s with
  | nil => rfl
  | cons item items ih =>
    have hrest := @ih fun item' hitem' => h item' (.tail _ hitem')
    cases item with
    | user u =>
      have hu : u.promptIndex = none := h _ (.head _)
      rw [progressiveLabels, legacyLabels, hu]
      dsimp only
      rw [hs, if_neg Bool.false_ne_true]
      have hpast : (s.pastPreamble u.syntheticReason).seenMarker = false := by
        cases u.syntheticReason with
        | none => exact hs
        | some reason => exact hs
      cases s.unmarkedIndex u.syntheticReason with
      | none => exact congrArg (none :: ·) (hrest hpast)
      | some idx => exact congrArg (some idx :: ·) (hrest hpast)
    | system | assistant | toolResult | backendToolCall | reasoning =>
      exact congrArg (none :: ·) (hrest hs)

variable {front : List ConversationItem} {item : ConversationItem} {m : Nat}

theorem countLegacyTurns_marked (h : Unmarked front) (hitem : markerOf item = some m)
    (tail : List ConversationItem) (s : TurnScan) :
    countLegacyTurnsUntilMarker s (front ++ item :: tail) =
      countLegacyTurnsUntilMarker s front := by
  induction front generalizing s with
  | nil =>
    cases item with
    | user u =>
      have hu : u.promptIndex = some m := hitem
      simp [countLegacyTurnsUntilMarker, hu]
    | system | assistant | toolResult | backendToolCall | reasoning => cases hitem
  | cons first front ih =>
    have hrest := ih fun item' hitem' => h item' (.tail _ hitem')
    cases first with
    | user u =>
      rw [cons_append, countLegacyTurnsUntilMarker, countLegacyTurnsUntilMarker, hrest]
    | system | assistant | toolResult | backendToolCall | reasoning => exact hrest s

theorem countLegacyTurns_congr {s s' : TurnScan}
    (h : s.seenUnmarkedPreamble = s'.seenUnmarkedPreamble) (items : List ConversationItem) :
    countLegacyTurnsUntilMarker s items = countLegacyTurnsUntilMarker s' items := by
  induction items generalizing s s' with
  | nil => rfl
  | cons item items ih =>
    cases item with
    | user u =>
      have hpast : (s.pastPreamble u.syntheticReason).seenUnmarkedPreamble =
          (s'.pastPreamble u.syntheticReason).seenUnmarkedPreamble := by
        cases u.syntheticReason with
        | none => rfl
        | some reason => exact h
      have hindex : (s.unmarkedIndex u.syntheticReason).isSome =
          (s'.unmarkedIndex u.syntheticReason).isSome := by
        cases u.syntheticReason with
        | none =>
          rw [TurnScan.unmarkedIndex, TurnScan.unmarkedIndex, h]
          split <;> rfl
        | some reason =>
          rw [TurnScan.unmarkedIndex, TurnScan.unmarkedIndex]
          split <;> rfl
      rw [countLegacyTurnsUntilMarker, countLegacyTurnsUntilMarker, ih hpast, hindex]
    | system | assistant | toolResult | backendToolCall | reasoning => exact ih h

/-- The legacy labels of unmarked items count up from where the scan stands. -/
theorem legacyLabels_below_iff (h : Unmarked items) (s : TurnScan) (target : Nat) :
    (∀ idx, some idx ∈ legacyLabels s items → idx < target) ↔
      countLegacyTurnsUntilMarker s items = 0 ∨
        s.nextUnmarkedIndex + countLegacyTurnsUntilMarker s items ≤ target := by
  induction items generalizing s with
  | nil => simp [legacyLabels, countLegacyTurnsUntilMarker]
  | cons item items ih =>
    have hrest := ih fun item' hitem' => h item' (.tail _ hitem')
    cases item with
    | user u =>
      have hu : u.promptIndex = none := h _ (.head _)
      have hnext : (s.pastPreamble u.syntheticReason).nextUnmarkedIndex = s.nextUnmarkedIndex := by
        cases u.syntheticReason with
        | none => rfl
        | some reason => rfl
      rw [legacyLabels, countLegacyTurnsUntilMarker, hu, if_neg (by decide)]
      cases hindex : s.unmarkedIndex u.syntheticReason with
      | none =>
        have hpast := hrest (s.pastPreamble u.syntheticReason)
        rw [hnext] at hpast
        dsimp only
        rw [isSome_none, if_neg Bool.false_ne_true, ← hpast]
        simp
      | some idx =>
        obtain rfl : s.nextUnmarkedIndex = idx := by
          revert hindex
          rw [TurnScan.unmarkedIndex.eq_def]
          cases u.syntheticReason with
          | none =>
            dsimp only
            split <;> simp
          | some reason =>
            dsimp only
            split <;> simp
        have hpast := hrest ⟨s.nextUnmarkedIndex + 1,
          (s.pastPreamble u.syntheticReason).seenUnmarkedPreamble,
          (s.pastPreamble u.syntheticReason).seenMarker⟩
        have hcount : countLegacyTurnsUntilMarker ⟨s.nextUnmarkedIndex + 1,
            (s.pastPreamble u.syntheticReason).seenUnmarkedPreamble,
            (s.pastPreamble u.syntheticReason).seenMarker⟩ items =
            countLegacyTurnsUntilMarker (s.pastPreamble u.syntheticReason) items := by
          apply countLegacyTurns_congr
          rfl
        rw [hcount] at hpast
        dsimp only at hpast ⊢
        rw [isSome_some, if_pos rfl]
        simp only [mem_cons, some.injEq, forall_eq_or_imp, hpast]
        omega
    | system | assistant | toolResult | backendToolCall | reasoning =>
      rw [show countLegacyTurnsUntilMarker s (_ :: items) = countLegacyTurnsUntilMarker s items
        from rfl, ← hrest s]
      show (∀ idx, some idx ∈ none :: legacyLabels s items → _) ↔ _
      simp

/-! ## Two rewinds -/

/-- What a rewind keeps of the conversation. -/
def truncated (conversation : List ConversationItem) (target : Nat) : List ConversationItem :=
  conversation.take (conversationTruncateForPrompt conversation target)

/-- The first rewind takes the first marker away, in a conversation whose
markers do not go on from the unmarked turns in front of them, and the second
one aims at one of those turns. -/
def LosesMarker (conversation : List ConversationItem) (target target' : Nat) : Prop :=
  ∃ firstMarkerIdx, conversation.findSome? markerOf = some firstMarkerIdx ∧
    countLegacyTurnsUntilMarker .start conversation ≠ firstMarkerIdx ∧
    target' ≤ firstMarkerIdx ∧ target < countLegacyTurnsUntilMarker .start conversation

theorem labels_unmarked (h : Unmarked items) : labels items = legacyLabels .start items := by
  rw [labels, h.findSome?]

theorem labels_marked (h : Unmarked front) (hitem : markerOf item = some m)
    (tail : List ConversationItem) :
    labels (front ++ item :: tail) =
      if countLegacyTurnsUntilMarker .start front ≠ m then (front ++ item :: tail).map markerOf
      else progressiveLabels .start (front ++ item :: tail) := by
  have hfirst : (front ++ item :: tail).findSome? markerOf = some m := by
    rw [findSome?_append, h.findSome?, none_or, findSome?_cons, hitem]
  rw [labels, hfirst]
  dsimp only
  rw [countLegacyTurns_marked h hitem]

theorem length_legacyLabels (s : TurnScan) (items : List ConversationItem) :
    (legacyLabels s items).length = items.length := by
  induction items generalizing s with
  | nil => rfl
  | cons item items ih =>
    cases item with
    | user u =>
      rw [legacyLabels]
      cases s.unmarkedIndex u.syntheticReason with
      | none => exact congrArg (· + 1) (ih _)
      | some idx => exact congrArg (· + 1) (ih _)
    | system | assistant | toolResult | backendToolCall | reasoning =>
      exact congrArg (· + 1) (ih s)

/-- A second rewind that goes by the labels of the first finds the same item. -/
theorem truncated_truncated {conversation : List ConversationItem} (h : target ≤ target')
    (hlabels : labels (truncated conversation target') = (labels conversation).take (conversationTruncateForPrompt conversation target')) :
    truncated (truncated conversation target') target = truncated conversation target := by
  have hmono : conversationTruncateForPrompt conversation target ≤
      conversationTruncateForPrompt conversation target' := by
    rw [truncateForPrompt_eq, truncateForPrompt_eq]
    exact cut_mono h _
  have hcut : conversationTruncateForPrompt (truncated conversation target') target =
      conversationTruncateForPrompt conversation target := by
    rw [truncateForPrompt_eq, hlabels, cut_take, ← truncateForPrompt_eq, Nat.min_eq_right hmono]
  rw [truncated, hcut, truncated, truncated, take_take, Nat.min_eq_left hmono]

theorem Unmarked.take (h : Unmarked items) (n : Nat) :
    Unmarked (items.take n) := fun item hitem => h item (mem_of_mem_take hitem)

/-- Going by the markers alone, no cut falls in front of the first one. -/
theorem cut_markers (h : Unmarked front) (hitem : markerOf item = some m)
    (tail : List ConversationItem) (target : Nat) :
    cut target ((front ++ item :: tail).map markerOf) =
      front.length + if target ≤ m then 0 else cut target (tail.map markerOf) + 1 := by
  rw [map_append, map_cons, hitem, ← cut_cons_some]
  induction front with
  | nil => simp
  | cons first front ih =>
    have hrest := ih fun item' hitem' => h item' (.tail _ hitem')
    rw [map_cons, h first (.head _), cons_append, cut_cons_none, hrest, length_cons]
    omega

/-- Rewinds compose, except where the first one loses the marker. -/
theorem rewinds_compose_iff (conversation : List ConversationItem) {target target' : Nat}
    (h : target ≤ target') :
    (conversationTruncateForPrompt conversation target ≤
        conversationTruncateForPrompt conversation target' ∧
      truncated (truncated conversation target') target = truncated conversation target) ↔
      ¬ LosesMarker conversation target target' := by
  have hmono : conversationTruncateForPrompt conversation target ≤
      conversationTruncateForPrompt conversation target' := by
    rw [truncateForPrompt_eq, truncateForPrompt_eq]
    exact cut_mono h _
  cases hfirst : conversation.findSome? markerOf with
  | none =>
    have hunmarked : Unmarked conversation := findSome?_eq_none_iff.mp hfirst
    refine iff_of_true ⟨hmono, truncated_truncated h ?_⟩ ?_
    · rw [truncated, labels_unmarked (hunmarked.take _), labels_unmarked hunmarked,
        legacyLabels_take]
    · rintro ⟨m, hm, -⟩
      rw [hfirst] at hm
      cases hm
  | some m =>
    obtain ⟨front, item, tail, rfl, hitem, hfront⟩ := findSome?_eq_some_iff.mp hfirst
    have hunmarked : Unmarked front := hfront
    have hloses : LosesMarker (front ++ item :: tail) target target' ↔
        countLegacyTurnsUntilMarker .start front ≠ m ∧ target' ≤ m ∧
          target < countLegacyTurnsUntilMarker .start front := by
      rw [LosesMarker, hfirst, countLegacyTurns_marked hunmarked hitem]
      simp
    have hlabels := labels_marked hunmarked hitem tail
    rw [hloses]
    rcases Nat.lt_or_ge front.length
        (conversationTruncateForPrompt (front ++ item :: tail) target') with hlong | hshort
    · -- the marker stays, and with it the way of counting
      have htake : (front ++ item :: tail).take
            (conversationTruncateForPrompt (front ++ item :: tail) target') =
          front ++ item :: tail.take
            (conversationTruncateForPrompt (front ++ item :: tail) target' - front.length - 1) := by
        rw [take_append, take_of_length_le (by omega)]
        obtain ⟨n, hn⟩ := Nat.exists_eq_add_of_lt hlong
        rw [hn, show front.length + n + 1 - front.length = n + 1 by omega, take_succ_cons]
        rfl
      refine iff_of_true ⟨hmono, truncated_truncated h ?_⟩ ?_
      · have hkept := labels_marked hunmarked hitem (tail.take
          (conversationTruncateForPrompt (front ++ item :: tail) target' - front.length - 1))
        rw [truncated, htake, hkept, ← htake, hlabels]
        split
        · rw [map_take]
        · rw [progressiveLabels_take]
      · rintro ⟨hgap, hle, -⟩
        rw [truncateForPrompt_eq, hlabels, if_pos hgap, cut_markers hunmarked hitem,
          if_pos hle] at hlong
        omega
    · -- the marker goes, and the next rewind counts the legacy way
      have htake : truncated (front ++ item :: tail) target' = front.take
          (conversationTruncateForPrompt (front ++ item :: tail) target') := by
        rw [truncated, take_append_of_le_length hshort]
      by_cases hgap : countLegacyTurnsUntilMarker .start front ≠ m
      · have hcut := cut_markers hunmarked hitem tail
        rw [truncateForPrompt_eq, hlabels, if_pos hgap, hcut] at hshort
        have hle : target' ≤ m := by
          by_contra hlt
          rw [if_neg hlt] at hshort
          omega
        have hall : ∀ t ≤ target', truncated (front ++ item :: tail) t = front := by
          intro t ht
          rw [truncated, truncateForPrompt_eq, hlabels, if_pos hgap, hcut,
            if_pos (Nat.le_trans ht hle), Nat.add_zero, take_left]
        have hsecond : truncated front target = front ↔
            countLegacyTurnsUntilMarker .start front ≤ target := by
          have hbelow := legacyLabels_below_iff hunmarked .start target
          rw [← cut_eq_length_iff, length_legacyLabels] at hbelow
          rw [truncated, truncateForPrompt_eq, labels_unmarked hunmarked]
          rw [take_eq_self_iff]
          have hstart : TurnScan.start.nextUnmarkedIndex = 0 := rfl
          have hbound : cut target (legacyLabels .start front) ≤ front.length := by
            rw [← length_legacyLabels .start front]
            exact findIdx_le_length
          omega
        rw [hall target' (Nat.le_refl _), hall target h, hsecond]
        constructor
        · rintro ⟨-, hcount⟩ ⟨-, -, hlt⟩
          omega
        · intro hno
          refine ⟨hmono, Nat.le_of_not_lt fun hlt => hno ⟨hgap, hle, hlt⟩⟩
      · refine iff_of_true ⟨hmono, truncated_truncated h ?_⟩ fun hno => hgap hno.1
        rw [htake, labels_unmarked (hunmarked.take _), hlabels, if_neg hgap,
          ← progressiveLabels_unmarked (hunmarked.take _) rfl, ← progressiveLabels_take,
          take_append_of_le_length hshort]

/-- A conversation after a compaction: an unmarked prompt, and one with a high marker. -/
def rebuiltConversation : List ConversationItem :=
  [.user ⟨[.text "user_info".toList], none, none, none⟩,
    .user ⟨[.text "summary".toList], none, none, none⟩,
    .user ⟨[.text "go on".toList], none, some 5, none⟩]

theorem rewinds_compose_iff_rebuilt :
    (conversationTruncateForPrompt rebuiltConversation 5 ≤
        conversationTruncateForPrompt rebuiltConversation 6 ∧
      truncated (truncated rebuiltConversation 6) 5 = truncated rebuiltConversation 5) ↔
      ¬ LosesMarker rebuiltConversation 5 6 :=
  rewinds_compose_iff rebuiltConversation (by decide)

/-- At once, both unmarked items stay; in two rewinds, the second goes too. -/
theorem rewinds_differ :
    0 ≤ 3 ∧ truncated (truncated rebuiltConversation 3) 0 ≠ truncated rebuiltConversation 0 := by
  decide

end GrokBuild.Rewind
