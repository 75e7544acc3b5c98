import Mathlib.Data.List.TakeWhile
import GrokBuild.PromptQueue.Items

/-!
# Combining the front of the queue

`combine_front_pending_inputs`: which followers the front takes up, and what
it becomes. The followers' texts are put behind its last text block, so that
its joined text is the texts in order (`joinedTextBlocks_appendToLastText`). The gate
reads the kind of a prompt, its blocks and its tool overrides, but neither its
mode nor its output schema nor its verbatim flag (`combines_faithfully_iff`).
-/

namespace GrokBuild.PromptQueue

open TextLines Str Join
open Workflow (Json)

/-! ## The gate -/

structure CombineGate where
  id : Text
  isPlainPrompt : Bool
  isSynthetic : Bool
  isExpandedSkill : Bool
  isBash : Bool
  hasImages : Bool
  text : Text

def canMergeFront (g : CombineGate) : Bool :=
  g.isPlainPrompt && !g.isSynthetic && !g.isExpandedSkill && !g.isBash && !g.text.isEmpty

def canMergeFollower (skipIds : List Text) (g : CombineGate) : Bool :=
  canMergeFront g && !g.hasImages && !skipIds.contains g.id

def combinePrefixLen (skipIds : List Text) : List CombineGate → Nat
  | [] => 0
  | front :: rest =>
    if canMergeFront front then 1 + (rest.takeWhile (canMergeFollower skipIds)).length else 1

def ContentBlock.isExpandedSkill : ContentBlock → Bool
  | .text t => hasDisplayText t
  | _ => false

def ContentBlock.hasText : ContentBlock → Bool
  | .text t => !t.text.isEmpty
  | _ => false

def ContentBlock.isImage : ContentBlock → Bool
  | .image _ => true
  | _ => false

def ContentBlock.nonTextNonImage : ContentBlock → Bool
  | .other _ => true
  | _ => false

def combineGate (item : InputItem) : CombineGate :=
  let isBash := (extractBashCommand item.promptBlocks).isSome
  let isPlainPrompt := item.queueMeta.map (·.kind) == some "prompt".toList && !isBash
  let text := (item.queueMeta.map (·.text)).getD []
  { id := item.promptId
    isPlainPrompt := isPlainPrompt && item.promptBlocks.any ContentBlock.hasText
      && !item.promptBlocks.any ContentBlock.nonTextNonImage
      -- an override of its own keeps a row out of another's turn
      && item.toolOverridesUpdate.isNone
    isSynthetic := item.origin.isSynthetic
    isExpandedSkill := item.promptBlocks.any ContentBlock.isExpandedSkill
    isBash
    hasImages := item.promptBlocks.any ContentBlock.isImage
    text :=
      if text.isEmpty then
        ((item.promptBlocks.filterMap ContentBlock.text?).find? fun s => !s.isEmpty).getD []
      else text }

/-! ## The merge -/

/-- `stamp_combined_display_texts`, under `COMBINED_DISPLAY_TEXTS_META`. -/
def stampCombinedDisplayTexts (m : Meta) (segs : List Text) : Meta :=
  if segs.length < 2 then m
  else m.insert "combinedDisplayTexts".toList (.array (segs.map .string))

/-- A text block changed by `f`, other blocks not. -/
def ContentBlock.mapText (f : TextContent → TextContent) : ContentBlock → Option ContentBlock
  | .text t => some (.text (f t))
  | _ => none

/-- `stamp_combined_display_texts_meta`: the first text block gets the stamp. -/
def stampCombinedDisplayTextsMeta (item : InputItem) : InputItem :=
  match item.queueMeta.bind (·.combinedTexts) with
  | none => item
  | some segs =>
    { item with
      promptBlocks := item.promptBlocks.replaceF (ContentBlock.mapText fun t =>
        { t with blockMeta := some (stampCombinedDisplayTexts (t.blockMeta.getD []) segs) }) }

/-- The segment put behind those of the row; the row's own text is the first one. -/
def QueueEntryMeta.pushSegment (extra : Text) (m : QueueEntryMeta) : QueueEntryMeta :=
  { m with
    combinedTexts :=
      match m.combinedTexts with
      | some segs => some (segs ++ [extra])
      | none => some [m.text, extra] }

/-- The last text block with `extra` behind its text. -/
def appendToLastText (extra : Text) (blocks : List ContentBlock) : List ContentBlock :=
  (blocks.reverse.replaceF
    (ContentBlock.mapText fun t => { t with text := grow textSeparator extra t.text })).reverse

def appendTextToPrompt (item : InputItem) (extra : Text) : InputItem :=
  if extra.isEmpty then item
  else
    let blocks := appendToLastText extra item.promptBlocks
    let queueMeta := (item.queueMeta.map (·.pushSegment extra)).map fun m =>
      { m with text := queueTextFromBlocks blocks }
    stampCombinedDisplayTextsMeta { item with promptBlocks := blocks, queueMeta := queueMeta }

/-- The loop of `combine_front_pending_inputs`: so many followers into the front. -/
def mergeFollowers : Nat → List InputItem → List InputItem × List Response
  | n + 1, front :: next :: rest =>
    let r := mergeFollowers n
      (appendTextToPrompt front (joinedTextBlocks next.promptBlocks) :: rest)
    (r.1, respondRemovedPrompt next :: r.2)
  | _, pending => (pending, [])

def combineFrontPendingInputs (pending : List InputItem) (skipIds : List Text) :
    List InputItem × List Response :=
  if pending.length < 2 then (pending, [])
  else
    let n := combinePrefixLen skipIds (pending.map combineGate)
    if n < 2 then (pending, []) else mergeFollowers (n - 1) pending

/-! ## What appending does -/

theorem textsOf_mapText {f : TextContent → TextContent} (g : Text → Text)
    (hf : ∀ t, (f t).text = g t.text) (blocks : List ContentBlock) :
    textsOf (blocks.replaceF (ContentBlock.mapText f)) = (textsOf blocks).modifyHead g := by
  induction blocks with
  | nil => rfl
  | cons block blocks ih =>
    cases block with
    | text t => simp [List.replaceF, ContentBlock.mapText, hf]
    | image | other => simpa [List.replaceF, ContentBlock.mapText] using ih

theorem imagesOf_mapText (f : TextContent → TextContent) (blocks : List ContentBlock) :
    imagesOf (blocks.replaceF (ContentBlock.mapText f)) = imagesOf blocks := by
  induction blocks with
  | nil => rfl
  | cons block blocks ih =>
    cases block with
    | text t => simp [List.replaceF, ContentBlock.mapText]
    | image | other => simpa [List.replaceF, ContentBlock.mapText] using ih

theorem textsOf_reverse (blocks : List ContentBlock) :
    textsOf blocks.reverse = (textsOf blocks).reverse := List.filterMap_reverse

theorem imagesOf_reverse (blocks : List ContentBlock) :
    imagesOf blocks.reverse = (imagesOf blocks).reverse := List.filterMap_reverse

theorem imagesOf_appendToLastText (extra : Text) (blocks : List ContentBlock) :
    imagesOf (appendToLastText extra blocks) = imagesOf blocks := by
  rw [appendToLastText, imagesOf_reverse, imagesOf_mapText, imagesOf_reverse, List.reverse_reverse]

theorem joinedTextBlocks_appendToLastText {extra : Text} {blocks : List ContentBlock}
    (h : joinedTextBlocks blocks ≠ []) (hextra : extra ≠ []) :
    joinedTextBlocks (appendToLastText extra blocks) =
      joinedTextBlocks blocks ++ textSeparator ++ extra := by
  have htexts : textsOf (appendToLastText extra blocks) =
      ((textsOf blocks).reverse.modifyHead (grow textSeparator extra)).reverse := by
    rw [appendToLastText, textsOf_reverse, textsOf_mapText (grow textSeparator extra) (fun _ => rfl),
      textsOf_reverse]
  rw [joinedTextBlocks, joinTexts, htexts]
  rw [joinedTextBlocks, joinTexts] at h ⊢
  rcases List.eq_nil_or_concat' (textsOf blocks) with hnil | ⟨texts, last, hlast⟩
  · rw [hnil] at h
    exact absurd rfl h
  · rw [hlast] at h ⊢
    rw [List.reverse_concat, List.modifyHead_cons, List.reverse_cons, List.reverse_reverse]
    exact join_grow textSeparator h hextra

theorem stampCombinedDisplayTextsMeta_spec (item : InputItem) : ∃ blocks,
    stampCombinedDisplayTextsMeta item = { item with promptBlocks := blocks } ∧
      textsOf blocks = textsOf item.promptBlocks ∧ imagesOf blocks = imagesOf item.promptBlocks := by
  rw [stampCombinedDisplayTextsMeta]
  split
  · exact ⟨item.promptBlocks, rfl, rfl, rfl⟩
  · refine ⟨_, rfl, ?_, imagesOf_mapText _ _⟩
    rw [textsOf_mapText id]
    · exact congrFun List.modifyHead_id _
    · exact fun _ => rfl

theorem appendTextToPrompt_spec {item : InputItem} {extra : Text}
    (h : joinedTextBlocks item.promptBlocks ≠ []) (hextra : extra ≠ []) : ∃ blocks queueMeta,
    appendTextToPrompt item extra =
        { item with promptBlocks := blocks, queueMeta := queueMeta } ∧
      joinedTextBlocks blocks = joinedTextBlocks item.promptBlocks ++ textSeparator ++ extra ∧
      imagesOf blocks = imagesOf item.promptBlocks ∧
      queueMeta.map (·.id) = item.queueMeta.map (·.id) := by
  have hnot : extra.isEmpty = false := by simpa using hextra
  simp only [appendTextToPrompt, hnot, Bool.false_eq_true, if_false]
  obtain ⟨blocks, hstamped, htexts, himages⟩ := stampCombinedDisplayTextsMeta_spec
    { item with
      promptBlocks := appendToLastText extra item.promptBlocks
      queueMeta := (item.queueMeta.map (·.pushSegment extra)).map fun m =>
        { m with text := queueTextFromBlocks (appendToLastText extra item.promptBlocks) } }
  refine ⟨blocks, _, hstamped, ?_, ?_, ?_⟩
  · rw [joinedTextBlocks, htexts]
    exact joinedTextBlocks_appendToLastText h hextra
  · rw [himages]
    exact imagesOf_appendToLastText extra item.promptBlocks
  · rw [Option.map_map, Option.map_map]
    rfl

/-! ## What merging does -/

theorem mergeFollowers_spec {front : InputItem} {followers behind : List InputItem}
    (hfront : joinedTextBlocks front.promptBlocks ≠ [])
    (hfollowers : ∀ f ∈ followers, joinedTextBlocks f.promptBlocks ≠ []) : ∃ blocks queueMeta,
    mergeFollowers followers.length (front :: (followers ++ behind)) =
        ({ front with promptBlocks := blocks, queueMeta := queueMeta } :: behind,
          followers.map respondRemovedPrompt) ∧
      joinedTextBlocks blocks = textSeparator.intercalate (joinedTextBlocks front.promptBlocks ::
        followers.map fun f => joinedTextBlocks f.promptBlocks) ∧
      imagesOf blocks = imagesOf front.promptBlocks ∧
      queueMeta.map (·.id) = front.queueMeta.map (·.id) := by
  induction followers generalizing front with
  | nil =>
    refine ⟨front.promptBlocks, front.queueMeta, rfl, ?_, rfl, rfl⟩
    exact (intercalate_singleton _ _).symm
  | cons next followers ih =>
    obtain ⟨hnext, hfollowers⟩ := List.forall_mem_cons.mp hfollowers
    obtain ⟨blocks, queueMeta, happend, hjoined, himages, hid⟩ :=
      appendTextToPrompt_spec hfront hnext
    have hgrown : joinedTextBlocks blocks ≠ [] := by
      rw [hjoined]
      simp [hnext]
    obtain ⟨blocks', queueMeta', hmerge, hjoined', himages', hid'⟩ :=
      @ih { front with promptBlocks := blocks, queueMeta := queueMeta } hgrown hfollowers
    refine ⟨blocks', queueMeta', ?_, ?_, himages'.trans himages, hid'.trans hid⟩
    · rw [List.length_cons, List.cons_append, mergeFollowers, happend, hmerge]
      rfl
    · rw [hjoined', hjoined]
      cases hrest : followers.map fun f => joinedTextBlocks f.promptBlocks with
      | nil =>
        rw [intercalate_singleton, List.map_cons, hrest]
        simp [List.intercalate, List.append_assoc]
      | cons text texts =>
        rw [List.map_cons, hrest, List.intercalate_cons_of_ne_nil (List.cons_ne_nil _ _),
          List.intercalate_cons_of_ne_nil (List.cons_ne_nil _ _),
          List.intercalate_cons_of_ne_nil (List.cons_ne_nil _ _)]
        simp only [List.append_assoc]

/-! ## The combined prefix -/

/-- The followers that the front takes up: none behind a front that may not
merge, else the prompts behind it up to the first that may not. -/
def mergedFollowers (pending : List InputItem) (skipIds : List Text) : List InputItem :=
  match pending with
  | [] => []
  | front :: rest =>
    if canMergeFront (combineGate front) then
      rest.takeWhile fun item => canMergeFollower skipIds (combineGate item)
    else []

/-- The items behind the combined prefix. -/
def behindPrefix (pending : List InputItem) (skipIds : List Text) : List InputItem :=
  pending.drop (1 + (mergedFollowers pending skipIds).length)

theorem combinePrefixLen_eq (front : InputItem) (rest : List InputItem) (skipIds : List Text) :
    combinePrefixLen skipIds ((front :: rest).map combineGate) =
      1 + (mergedFollowers (front :: rest) skipIds).length := by
  rw [List.map_cons, combinePrefixLen, mergedFollowers]
  split
  · rw [List.takeWhile_map, List.length_map]
    rfl
  · rfl

theorem mergedFollowers_append_behind (front : InputItem) (rest : List InputItem)
    (skipIds : List Text) :
    mergedFollowers (front :: rest) skipIds ++ behindPrefix (front :: rest) skipIds = rest := by
  rw [behindPrefix, Nat.add_comm, List.drop_succ_cons, mergedFollowers]
  split
  · exact List.prefix_iff_eq_append.mp (List.takeWhile_prefix _)
  · rfl

theorem canMergeFront_spec {item : InputItem} (h : canMergeFront (combineGate item) = true) :
    joinedTextBlocks item.promptBlocks ≠ [] ∧ item.toolOverridesUpdate = none := by
  simp only [canMergeFront, combineGate, Bool.and_eq_true, List.any_eq_true,
    Option.isNone_iff_eq_none] at h
  obtain ⟨⟨⟨⟨⟨⟨⟨-, block, hblock, htext⟩, -⟩, hnone⟩, -⟩, -⟩, -⟩, -⟩ := h
  refine ⟨fun hnil => ?_, hnone⟩
  cases block with
  | image | other => cases htext
  | text t =>
    have hmem : t.text ∈ textsOf item.promptBlocks :=
      List.mem_filterMap.mpr ⟨.text t, hblock, rfl⟩
    rw [joinedTextBlocks, joinTexts, join_eq_nil_iff] at hnil
    simp [ContentBlock.hasText, hnil t.text hmem] at htext

theorem mergedFollowers_eligible {pending : List InputItem} {skipIds : List Text}
    {f : InputItem} (h : f ∈ mergedFollowers pending skipIds) :
    canMergeFront (combineGate f) = true := by
  cases pending with
  | nil => cases h
  | cons front rest =>
    rw [mergedFollowers] at h
    split at h
    · have hfollower := List.mem_takeWhile_imp h
      simp only [canMergeFollower, Bool.and_eq_true] at hfollower
      exact hfollower.1.1
    · cases h

theorem front_eligible {front : InputItem} {rest : List InputItem} {skipIds : List Text}
    (h : mergedFollowers (front :: rest) skipIds ≠ []) :
    canMergeFront (combineGate front) = true := by
  rw [mergedFollowers] at h
  split at h
  · assumption
  · exact absurd rfl h

/-- The settings a prompt runs under. -/
def SameSettings (a b : InputItem) : Prop :=
  a.promptMode = b.promptMode ∧ a.jsonSchema = b.jsonSchema ∧ a.verbatim = b.verbatim

/-- Combining leaves the items behind the prefix, resolves each follower once,
puts the texts of the prefix into its front in order, keeps the front's
images, and merges only what runs under the front's settings. -/
structure CombinesFaithfully (pending : List InputItem) (skipIds : List Text)
    (after : List InputItem) (responses : List Response) : Prop where
  behind : after.drop 1 = behindPrefix pending skipIds
  resolved : responses = (mergedFollowers pending skipIds).map respondRemovedPrompt
  front : ∀ front ∈ pending.head?, ∃ front' ∈ after.head?,
    joinedTextBlocks front'.promptBlocks = textSeparator.intercalate
      (joinedTextBlocks front.promptBlocks ::
        (mergedFollowers pending skipIds).map fun f => joinedTextBlocks f.promptBlocks) ∧
    imagesOf front'.promptBlocks = imagesOf front.promptBlocks ∧
    SameSettings front' front ∧ front'.toolOverridesUpdate = front.toolOverridesUpdate
  settings : ∀ front ∈ pending.head?, ∀ f ∈ mergedFollowers pending skipIds,
    SameSettings f front ∧ f.toolOverridesUpdate = front.toolOverridesUpdate

theorem combineFrontPendingInputs_eq (front : InputItem) (rest : List InputItem)
    (skipIds : List Text) : ∃ blocks queueMeta,
    combineFrontPendingInputs (front :: rest) skipIds =
        ({ front with promptBlocks := blocks, queueMeta := queueMeta } ::
            behindPrefix (front :: rest) skipIds,
          (mergedFollowers (front :: rest) skipIds).map respondRemovedPrompt) ∧
      joinedTextBlocks blocks = textSeparator.intercalate (joinedTextBlocks front.promptBlocks ::
        (mergedFollowers (front :: rest) skipIds).map fun f => joinedTextBlocks f.promptBlocks) ∧
      imagesOf blocks = imagesOf front.promptBlocks ∧
      queueMeta.map (·.id) = front.queueMeta.map (·.id) := by
  have hlen := combinePrefixLen_eq front rest skipIds
  by_cases hnone : mergedFollowers (front :: rest) skipIds = []
  · refine ⟨front.promptBlocks, front.queueMeta, ?_, ?_, rfl, rfl⟩
    · have hshort : combinePrefixLen skipIds ((front :: rest).map combineGate) < 2 := by
        rw [hlen, hnone]
        exact Nat.lt_add_one 1
      rw [combineFrontPendingInputs, behindPrefix, hnone]
      simp only [hshort, if_true, ite_self]
      rfl
    · rw [hnone]
      exact (intercalate_singleton _ _).symm
  · have hfront := front_eligible hnone
    have hsplit := mergedFollowers_append_behind front rest skipIds
    have hpos := List.length_pos_of_ne_nil hnone
    have htexts : ∀ f ∈ mergedFollowers (front :: rest) skipIds,
        joinedTextBlocks f.promptBlocks ≠ [] :=
      fun f hf => (canMergeFront_spec (mergedFollowers_eligible hf)).1
    obtain ⟨blocks, queueMeta, hmerge, hjoined, himages, hid⟩ :=
      @mergeFollowers_spec front _ (behindPrefix (front :: rest) skipIds)
        (canMergeFront_spec hfront).1 htexts
    refine ⟨blocks, queueMeta, ?_, hjoined, himages, hid⟩
    rw [combineFrontPendingInputs, if_neg, if_neg, hlen, Nat.add_sub_cancel_left]
    · rw [← hmerge, hsplit]
    · rw [hlen]
      omega
    · have hle : (mergedFollowers (front :: rest) skipIds).length ≤ rest.length := by
        conv_rhs => rw [← hsplit, List.length_append]
        exact Nat.le_add_right _ _
      rw [List.length_cons]
      omega

/-- Combining is faithful exactly when the followers that the gate lets
through have the front's mode, output schema and verbatim flag. -/
theorem combines_faithfully_iff (pending : List InputItem) (skipIds : List Text) :
    CombinesFaithfully pending skipIds (combineFrontPendingInputs pending skipIds).1
        (combineFrontPendingInputs pending skipIds).2 ↔
      ∀ front ∈ pending.head?, ∀ f ∈ mergedFollowers pending skipIds, SameSettings f front := by
  refine ⟨fun h front hfront f hf => (h.settings front hfront f hf).1, fun h => ?_⟩
  cases pending with
  | nil =>
    have hnone : ∀ front : InputItem, front ∉ ([] : List InputItem).head? :=
      fun front h => Option.not_mem_none front h
    exact ⟨rfl, rfl, fun front h => absurd h (hnone front), fun front h => absurd h (hnone front)⟩
  | cons front rest =>
    obtain ⟨blocks, queueMeta, heq, hjoined, himages, -⟩ :=
      combineFrontPendingInputs_eq front rest skipIds
    rw [heq]
    refine ⟨rfl, rfl, ?_, ?_⟩
    · rintro _ ⟨⟩
      exact ⟨{ front with promptBlocks := blocks, queueMeta := queueMeta }, rfl, hjoined, himages,
        ⟨rfl, rfl, rfl⟩, rfl⟩
    · rintro _ ⟨⟩ f hf
      refine ⟨h front rfl f hf, ?_⟩
      rw [(canMergeFront_spec (mergedFollowers_eligible hf)).2,
        (canMergeFront_spec (front_eligible (List.ne_nil_of_mem hf))).2]

/-! ## A read-only prompt behind a prompt of the agent mode -/

/-- A plain prompt of one text block. -/
def plainPrompt (id text : Text) (mode : PromptMode) (respondTo : Nat) : InputItem where
  promptId := id
  promptBlocks := [.text ⟨text, none⟩]
  promptMode := mode
  verbatim := false
  jsonSchema := none
  origin := .fromPromptId id
  toolOverridesUpdate := none
  respondTo := respondTo
  queueMeta := some ⟨id, 0, none, none, "prompt".toList, text, none⟩
  sendNow := false

/-- The second prompt was submitted for planning only, and runs as part of an agent's turn. -/
theorem planned_prompt_runs_as_agent :
    ¬ CombinesFaithfully
      [plainPrompt "p1".toList "fix it".toList .agent 0,
        plainPrompt "p2".toList "plan it".toList .plan 1] []
      (combineFrontPendingInputs
        [plainPrompt "p1".toList "fix it".toList .agent 0,
          plainPrompt "p2".toList "plan it".toList .plan 1] []).1
      (combineFrontPendingInputs
        [plainPrompt "p1".toList "fix it".toList .agent 0,
          plainPrompt "p2".toList "plan it".toList .plan 1] []).2 := by
  intro h
  have hmode := (h.settings _ rfl (plainPrompt "p2".toList "plan it".toList .plan 1) ?_).1.1
  · cases hmode
  · exact List.mem_cons_self

end GrokBuild.PromptQueue
