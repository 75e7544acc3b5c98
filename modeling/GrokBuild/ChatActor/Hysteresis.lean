import GrokBuild.ChatActor.Images

/-!
# Images given up over a run of requests

A conversation that only grows, and the request built after each batch. The
images a request replaces are the oldest `evictedImages`, a number that never
goes down (`evictedImages_append`). Every request is measured against the
whole stored conversation, with all its images, so after the first eviction
the body is over the trigger for good: what stays is decided by the reclaim
target alone (`stickyHysteresis_iff`).
-/

namespace GrokBuild.ChatActor

open TextLines ChatHistory Str Shed List

/-- The conversation that request `i` is built from. -/
def atRequest (c₀ : Conversation) (batches : List Conversation) (i : Nat) : Conversation :=
  c₀ ++ (batches.take i).flatten

theorem exists_added (c₀ : Conversation) (batches : List Conversation) {i j : Nat} (h : i ≤ j) :
    ∃ added, atRequest c₀ batches j = atRequest c₀ batches i ++ added := by
  refine ⟨((batches.drop i).take (j - i)).flatten, ?_⟩
  have hsplit : batches.take j = batches.take i ++ (batches.drop i).take (j - i) := by
    rw [← take_add, Nat.add_sub_cancel' h]
  rw [atRequest, atRequest, hsplit, flatten_append, append_assoc]

section Requests

variable (itemJsonBytes : ConversationItem → Nat)

/-- The request shows the placeholder where the conversation has an image. -/
def Replaced (conversation : Conversation) (item part : Nat) : Prop :=
  ∃ url items outcome, partAt conversation item part = some (.image url) ∧
    compactImages itemJsonBytes conversation = some (items, outcome) ∧
    partAt items item part = some placeholder

/-- Bytes appended between two requests. -/
def appendedBytes (before after : Conversation) : Nat :=
  conversationBodyBytes itemJsonBytes after - conversationBodyBytes itemJsonBytes before

/-- What eviction promises over the requests of a growing conversation. -/
structure StickyHysteresis (c₀ : Conversation) (batches : List Conversation) : Prop where
  /-- A replaced image is never shown again. -/
  sticky : ∀ i j, i ≤ j → j ≤ batches.length → ∀ item part,
    Replaced itemJsonBytes (atRequest c₀ batches i) item part →
      Replaced itemJsonBytes (atRequest c₀ batches j) item part
  /-- After a request that evicted, while fewer bytes are appended than lie
  between the trigger and the target, no other image goes and the earlier
  request is a prefix of the later one. -/
  hysteresis : ∀ i j, i ≤ j → j ≤ batches.length →
    (∃ item part, Replaced itemJsonBytes (atRequest c₀ batches i) item part) →
    appendedBytes itemJsonBytes (atRequest c₀ batches i) (atRequest c₀ batches j)
        < imageCompactTriggerBytes - imageCompactReclaimTargetBytes →
    (∀ item part, Replaced itemJsonBytes (atRequest c₀ batches j) item part →
      Replaced itemJsonBytes (atRequest c₀ batches i) item part) ∧
    ∃ itemsᵢ itemsⱼ outcomeᵢ outcomeⱼ,
      compactImages itemJsonBytes (atRequest c₀ batches i) = some (itemsᵢ, outcomeᵢ) ∧
      compactImages itemJsonBytes (atRequest c₀ batches j) = some (itemsⱼ, outcomeⱼ) ∧
      itemsᵢ <+: itemsⱼ

/-! ## One request -/

variable {conversation : Conversation}

theorem partAt_foldl_replaceAt {sites : List ImageSite} {a b : Nat} :
    partAt (sites.foldl replaceAt conversation) a b =
      if ∃ s ∈ sites, s.item = a ∧ s.part = b then
        (partAt conversation a b).map fun _ => placeholder
      else partAt conversation a b := by
  induction sites generalizing conversation with
  | nil => simp
  | cons s sites ih =>
    rw [foldl_cons, ih, partAt_replaceAt]
    by_cases hs : s.item = a ∧ s.part = b
    · simp [hs, Function.comp_def]
    · simp [hs]

theorem replaced_iff {item part : Nat} :
    Replaced itemJsonBytes conversation item part ↔
      ∃ s ∈ (images conversation).take (evictedImages itemJsonBytes conversation),
        s.item = item ∧ s.part = part := by
  obtain ⟨outcome, hcompact⟩ := compactImages_eq itemJsonBytes conversation
  constructor
  · rintro ⟨url, items, outcome', hurl, hitems, hpart⟩
    rw [hcompact, Option.some.injEq, Prod.mk.injEq] at hitems
    rw [← hitems.1, replaceOldest, partAt_foldl_replaceAt] at hpart
    by_contra hnone
    rw [if_neg hnone, hurl] at hpart
    cases hpart
  · intro hsite
    obtain ⟨s, hs, rfl, rfl⟩ := hsite
    obtain ⟨url, hurl⟩ := mem_images (mem_of_mem_take hs)
    refine ⟨url, _, _, hurl, hcompact, ?_⟩
    rw [replaceOldest, partAt_foldl_replaceAt, if_pos ⟨s, hs, rfl, rfl⟩, hurl, Option.map_some]

theorem evictedImages_pos_iff (conversation : Conversation) :
    0 < evictedImages itemJsonBytes conversation ↔
      imageCompactTriggerBytes ≤ conversationBodyBytes itemJsonBytes conversation ∧
        images conversation ≠ [] := by
  have htarget : imageCompactReclaimTargetBytes < imageCompactTriggerBytes := by decide
  rw [evictedImages]
  split
  · rename_i htrigger
    rw [shed_pos_iff, savings, ne_eq, map_eq_nil_iff]
    exact and_congr_left fun _ => iff_of_true (htarget.trans_le htrigger) htrigger
  · rename_i htrigger
    simp [htrigger]

theorem exists_replaced_iff (conversation : Conversation) :
    (∃ item part, Replaced itemJsonBytes conversation item part) ↔
      imageCompactTriggerBytes ≤ conversationBodyBytes itemJsonBytes conversation ∧
        images conversation ≠ [] := by
  rw [← evictedImages_pos_iff]
  constructor
  · intro hsome
    obtain ⟨item, part, h⟩ := hsome
    obtain ⟨s, hs, -⟩ := (replaced_iff itemJsonBytes).mp h
    refine Nat.pos_of_ne_zero fun hzero => ?_
    rw [hzero] at hs
    cases hs
  · intro hpos
    have hlen : 0 < ((images conversation).take (evictedImages itemJsonBytes conversation)).length := by
      have := evictedImages_le itemJsonBytes conversation
      rw [length_take]
      omega
    have hmem := getElem_mem hlen
    exact ⟨_, _, (replaced_iff itemJsonBytes).mpr ⟨_, hmem, rfl, rfl⟩⟩

/-! ## Two requests -/

theorem savings_append (c added : Conversation) :
    savings (c ++ added) = savings c ++ (imagesFrom c.length added).map (·.saving) := by
  rw [savings, images_append, map_append, savings]

theorem evictedImages_append (c added : Conversation) :
    evictedImages itemJsonBytes c ≤ evictedImages itemJsonBytes (c ++ added) := by
  have hbody := conversationBodyBytes_append itemJsonBytes c added
  by_cases htrigger : imageCompactTriggerBytes ≤ conversationBodyBytes itemJsonBytes c
  · rw [evictedImages, if_pos htrigger, evictedImages, if_pos (htrigger.trans hbody),
      savings_append]
    exact shed_le_shed_append hbody
  · rw [evictedImages, if_neg htrigger]
    exact Nat.zero_le _

theorem take_images_append (c added : Conversation) {k : Nat} (h : k ≤ (images c).length) :
    (images (c ++ added)).take k = (images c).take k := by
  rw [images_append, take_append_of_le_length h]

variable {c : Conversation}

theorem foldl_replaceAt_append {sites : List ImageSite} (h : ∀ s ∈ sites, s.item < c.length)
    (added : Conversation) : sites.foldl replaceAt (c ++ added) = sites.foldl replaceAt c ++ added := by
  induction sites generalizing c with
  | nil => rfl
  | cons s sites ih =>
    have hs : s.item < c.length := h s mem_cons_self
    rw [foldl_cons, foldl_cons, replaceAt_append hs]
    refine ih fun t ht => ?_
    rw [length_replaceAt]
    exact h t (mem_cons_of_mem s ht)

theorem replaceOldest_append (c added : Conversation) {k : Nat} (h : k ≤ (images c).length) :
    replaceOldest k (c ++ added) = replaceOldest k c ++ added := by
  rw [replaceOldest, take_images_append c added h, replaceOldest]
  refine foldl_replaceAt_append (fun s hs => ?_) added
  obtain ⟨url, hurl⟩ := mem_images (mem_of_mem_take hs)
  exact partAt_item_lt hurl

theorem Replaced.append {item part : Nat} (h : Replaced itemJsonBytes c item part)
    (added : Conversation) : Replaced itemJsonBytes (c ++ added) item part := by
  obtain ⟨s, hs, hpos⟩ := (replaced_iff itemJsonBytes).mp h
  refine (replaced_iff itemJsonBytes).mpr ⟨s, ?_, hpos⟩
  rw [← take_images_append c added (evictedImages_le itemJsonBytes c)] at hs
  exact (take_subset_take_left _ (evictedImages_append itemJsonBytes c added)) hs

theorem site_ext {i j : Nat} (hi : i < (images conversation).length)
    (hj : j < (images conversation).length)
    (hitem : (images conversation)[i].item = (images conversation)[j].item)
    (hpart : (images conversation)[i].part = (images conversation)[j].part) : i = j := by
  have hbefore := pairwise_iff_getElem.mp (before_imagesFrom 0 conversation)
  rcases Nat.lt_trichotomy i j with hlt | heq | hgt
  · have h : ImageSite.Before (images conversation)[i] (images conversation)[j] :=
      hbefore i j hi hj hlt
    rw [ImageSite.Before] at h
    omega
  · exact heq
  · have h : ImageSite.Before (images conversation)[j] (images conversation)[i] :=
      hbefore j i hj hi hgt
    rw [ImageSite.Before] at h
    omega

/-- Nothing else is replaced exactly when the number stays. -/
theorem replaced_subset_iff (c added : Conversation) :
    (∀ item part, Replaced itemJsonBytes (c ++ added) item part →
        Replaced itemJsonBytes c item part) ↔
      evictedImages itemJsonBytes (c ++ added) = evictedImages itemJsonBytes c := by
  have hle := evictedImages_append itemJsonBytes c added
  have hold := evictedImages_le itemJsonBytes c
  have hnew := evictedImages_le itemJsonBytes (c ++ added)
  constructor
  · intro hsub
    refine Nat.le_antisymm (Nat.le_of_not_lt fun hlt => ?_) hle
    -- the image behind the evicted ones would be replaced by the later request only
    have hk : evictedImages itemJsonBytes c < (images (c ++ added)).length := hlt.trans_le hnew
    have hmem : (images (c ++ added))[evictedImages itemJsonBytes c] ∈
        (images (c ++ added)).take (evictedImages itemJsonBytes (c ++ added)) :=
      mem_take_iff_getElem.mpr ⟨_, by omega, rfl⟩
    have hearly := hsub _ _ ((replaced_iff itemJsonBytes).mpr ⟨_, hmem, rfl, rfl⟩)
    obtain ⟨s, hs, hitem, hpart⟩ := (replaced_iff itemJsonBytes).mp hearly
    rw [← take_images_append c added hold] at hs
    obtain ⟨i, hi, rfl⟩ := mem_take_iff_getElem.mp hs
    have := site_ext (by omega) hk hitem hpart
    omega
  · intro heq item part h
    obtain ⟨s, hs, hpos⟩ := (replaced_iff itemJsonBytes).mp h
    rw [heq, take_images_append c added hold] at hs
    exact (replaced_iff itemJsonBytes).mpr ⟨s, hs, hpos⟩

theorem compactImages_prefix {added : Conversation}
    (h : evictedImages itemJsonBytes (c ++ added) = evictedImages itemJsonBytes c) :
    ∃ items items' outcome outcome', compactImages itemJsonBytes c = some (items, outcome) ∧
      compactImages itemJsonBytes (c ++ added) = some (items', outcome') ∧ items <+: items' := by
  obtain ⟨outcome, hc⟩ := compactImages_eq itemJsonBytes c
  obtain ⟨outcome', hc'⟩ := compactImages_eq itemJsonBytes (c ++ added)
  refine ⟨_, _, outcome, outcome', hc, hc', ?_⟩
  rw [h, replaceOldest_append c added (evictedImages_le itemJsonBytes c)]
  exact prefix_append _ _

/-! ## The run -/

/-- The bytes that the oldest `k` images give back. -/
def freed (conversation : Conversation) (k : Nat) : Nat := ((savings conversation).take k).sum

/-- Wherever eviction can stop at the earlier conversation (the oldest `k`
images free enough for the target, or are all there are), the later body fits
the target as well once those `k` are gone, or has no further image. -/
def StillFits (before after : Conversation) : Prop :=
  ∀ k ≤ (images before).length,
    (conversationBodyBytes itemJsonBytes before ≤ imageCompactReclaimTargetBytes + freed before k ∨
      (images before).length ≤ k) →
    conversationBodyBytes itemJsonBytes after ≤ imageCompactReclaimTargetBytes + freed before k ∨
      (images after).length ≤ k

theorem evictedImages_eq_iff {added : Conversation}
    (htrigger : imageCompactTriggerBytes ≤ conversationBodyBytes itemJsonBytes c) :
    evictedImages itemJsonBytes (c ++ added) = evictedImages itemJsonBytes c ↔
      StillFits itemJsonBytes c (c ++ added) := by
  have hbody := conversationBodyBytes_append itemJsonBytes c added
  rw [evictedImages, if_pos (htrigger.trans hbody), evictedImages, if_pos htrigger,
    savings_append, shed_append_eq_iff hbody]
  simp only [Enough, StillFits, freed, ← savings_append]
  simp only [savings, length_map]

/-- A replaced image is never shown again, and eviction is stable while fewer
bytes are appended than lie between the trigger and the target, exactly in
the runs where the body, with all images ever evicted still counted in,
keeps fitting the target. -/
theorem stickyHysteresis_iff (c₀ : Conversation) (batches : List Conversation) :
    StickyHysteresis itemJsonBytes c₀ batches ↔
      ∀ i j, i ≤ j → j ≤ batches.length →
        imageCompactTriggerBytes ≤
          conversationBodyBytes itemJsonBytes (atRequest c₀ batches i) →
        images (atRequest c₀ batches i) ≠ [] →
        appendedBytes itemJsonBytes (atRequest c₀ batches i) (atRequest c₀ batches j)
          < imageCompactTriggerBytes - imageCompactReclaimTargetBytes →
        StillFits itemJsonBytes (atRequest c₀ batches i) (atRequest c₀ batches j) := by
  constructor
  · intro h i j hij hj htrigger himages happended
    have hsome := (exists_replaced_iff itemJsonBytes _).mpr ⟨htrigger, himages⟩
    have hsub := (h.hysteresis i j hij hj hsome happended).1
    obtain ⟨added, hadded⟩ := exists_added c₀ batches hij
    rw [hadded] at hsub ⊢
    exact (evictedImages_eq_iff itemJsonBytes htrigger).mp
      ((replaced_subset_iff itemJsonBytes _ _).mp hsub)
  · intro h
    refine ⟨fun i j hij _ item part hreplaced => ?_, fun i j hij hj hsome happended => ?_⟩
    · obtain ⟨added, hadded⟩ := exists_added c₀ batches hij
      rw [hadded]
      exact hreplaced.append itemJsonBytes added
    · obtain ⟨htrigger, himages⟩ := (exists_replaced_iff itemJsonBytes _).mp hsome
      have hfits := h i j hij hj htrigger himages happended
      obtain ⟨added, hadded⟩ := exists_added c₀ batches hij
      rw [hadded] at hfits ⊢
      have heq := (evictedImages_eq_iff itemJsonBytes htrigger).mpr hfits
      exact ⟨(replaced_subset_iff itemJsonBytes _ _).mpr heq,
        compactImages_prefix itemJsonBytes heq⟩

end Requests

/-! ## Four images -/

/-- A user message that is one image with an address of `n` bytes. -/
def imageMessage (n : Nat) : ConversationItem :=
  .user ⟨[.image (List.replicate n 'A')], none, none, none⟩

/-- The size of such a message with its image blanked. -/
def imageMessageBytes : Nat :=
  byteLen ("\x7b\"type\":\"user\",\"content\":[".toList ++
    "\x7b\"type\":\"image\",\"url\":\"\"\x7d]\x7d".toList)

theorem byteLen_replicate (n : Nat) : byteLen (List.replicate n 'A') = n := by
  rw [byteLen, map_replicate, sum_replicate, smul_eq_mul]
  exact Nat.mul_one n

theorem conversationBodyBytes_imageMessages (sizes : List Nat) :
    conversationBodyBytes (fun _ => imageMessageBytes) (sizes.map imageMessage) =
      2 + sizes.length * imageMessageBytes + (sizes.length - 1) + sizes.sum := by
  have hurls : (sizes.map fun n => ((userParts (imageMessage n)).map urlBytes).sum) = sizes := by
    conv_rhs => rw [← List.map_id sizes]
    refine map_congr_left fun n _ => ?_
    simp [imageMessage, userParts, urlBytes, byteLen_replicate]
  rw [conversationBodyBytes, serializedJsonBytes, imageUrlBytes, List.map_map]
  simp only [Function.comp_def, hurls, List.map_map, length_map, map_const',
    sum_replicate, smul_eq_mul]

theorem savings_imageMessages (i : Nat) (sizes : List Nat) :
    (imagesFrom i (sizes.map imageMessage)).map (·.saving) =
      sizes.map fun n => imagePartFrameBytes + n - placeholderBytes := by
  induction sizes generalizing i with
  | nil => rfl
  | cons n sizes ih =>
    rw [map_cons, imagesFrom, imageMessage, userParts, partImages, partImages,
      singleton_append, map_cons, ih, ImageSite.saving, imagePartBytes,
      byteLen_replicate, map_cons]

/-- Three images of 16 MiB go down to one; 10 MiB more, well under the 22 MiB
between the trigger and the target, and the third goes too. -/
theorem fourth_image_evicts :
    ¬ StickyHysteresis (fun _ => imageMessageBytes)
      ([16777216, 16777216, 16777216].map imageMessage) [[10485760].map imageMessage] := by
  intro h
  have hframe : imagePartFrameBytes = 25 := by decide
  have hholder := placeholderBytes_eq
  have hmessage : imageMessageBytes = 53 := by decide
  obtain ⟨before, hbefore⟩ : ∃ sizes, sizes = [16777216, 16777216, 16777216] := ⟨_, rfl⟩
  obtain ⟨after, hafter⟩ : ∃ sizes, sizes = [16777216, 16777216, 16777216, 10485760] := ⟨_, rfl⟩
  have hgrown : before ++ [10485760] = after := by rw [hbefore, hafter]; rfl
  rw [← hbefore] at h
  have hbody := conversationBodyBytes_imageMessages before
  have hbody' := conversationBodyBytes_imageMessages after
  have hsavings : ∀ sizes : List Nat, savings (sizes.map imageMessage) =
      sizes.map fun n => imagePartFrameBytes + n - placeholderBytes := savings_imageMessages 0
  have himages : ∀ sizes : List Nat, (images (sizes.map imageMessage)).length = sizes.length := by
    intro sizes
    rw [← length_map (f := fun s : ImageSite => s.saving)]
    exact (congrArg List.length (hsavings sizes)).trans (length_map ..)
  have htrigger : imageCompactTriggerBytes ≤ conversationBodyBytes (fun _ => imageMessageBytes)
      (before.map imageMessage) := by
    rw [hbody, hmessage, hbefore]
    decide
  have hne : images (before.map imageMessage) ≠ [] :=
    ne_nil_of_length_pos (by rw [himages, hbefore]; decide)
  have hsome := (exists_replaced_iff (fun _ => imageMessageBytes) _).mpr ⟨htrigger, hne⟩
  have hfirst : atRequest (before.map imageMessage) [[10485760].map imageMessage] 0 =
      before.map imageMessage := append_nil _
  have hsecond : atRequest (before.map imageMessage) [[10485760].map imageMessage] 1 =
      before.map imageMessage ++ [10485760].map imageMessage := by
    rw [atRequest, take_succ_cons, flatten_cons, take_zero, flatten_nil,
      append_nil]
  have hstable := h.hysteresis 0 1 (by decide) (Nat.le_refl _)
  rw [hfirst, hsecond] at hstable
  have happended : appendedBytes (fun _ => imageMessageBytes) (before.map imageMessage)
      (before.map imageMessage ++ [10485760].map imageMessage)
        < imageCompactTriggerBytes - imageCompactReclaimTargetBytes := by
    rw [appendedBytes, ← map_append, hgrown, hbody, hbody', hmessage, hbefore, hafter]
    decide
  have hfits := (evictedImages_eq_iff _ htrigger).mp
    ((replaced_subset_iff _ _ _).mp (hstable hsome happended).1)
  have hfreed : freed (before.map imageMessage) 2 = 33554006 := by
    rw [freed, hsavings, hframe, hholder, hbefore]
    decide
  -- stopping after two was enough before, and is not now
  have hnow := hfits 2 (by rw [himages, hbefore]; decide) (.inl (by
    rw [hbody, hmessage, hfreed, hbefore]
    decide))
  rw [← map_append, hgrown, hbody', hmessage, hfreed, himages, hafter] at hnow
  revert hnow
  decide

end GrokBuild.ChatActor
