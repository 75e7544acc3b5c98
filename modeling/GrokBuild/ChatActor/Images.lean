import GrokBuild.ChatHistory.Repair
import GrokBuild.Lib.Shed
import GrokBuild.Lib.Str

/-!
# Images in a request

The image step of `build_conversation_request`: the size of the serialized
body, the trigger, and `compact_images_to_byte_budget` with its list of image
positions and its loop. The loop replaces the images that `Shed.shed` counts,
and it finds an image at each position (`evictLoop_eq`), so the step is
`replaceOldest` of that many (`compactImages_eq`).

How many bytes an item takes with its image addresses blanked is
`itemJsonBytes`, a parameter: what `serde_json` writes for it.
-/

namespace GrokBuild.ChatActor

open TextLines ChatHistory Str Shed List Option

/-! ## Sizes -/

def maxRequestBytes : Nat := 50 * 1024 * 1024

def imageCompactTriggerBytes : Nat := maxRequestBytes - 3 * 1024 * 1024

def imageCompactReclaimTargetBytes : Nat := maxRequestBytes / 2

def imageCompactPlaceholder : Text :=
  ("[An earlier image was removed to keep the request within its size limit and is no " ++
   "longer visible. Do not describe or reason about its contents from memory; ask the user " ++
   "to re-share it if you need to see it again.]").toList

def imagePartFrameBytes : Nat :=
  byteLen "\x7b\"type\":\"image\",\"url\":\"\"\x7d".toList

def imagePartBytes (url : Text) : Nat := imagePartFrameBytes + byteLen url

def placeholder : ContentPart := .text imageCompactPlaceholder

/-- The serialized size of `placeholder`; nothing in its text is escaped. -/
def placeholderBytes : Nat :=
  byteLen ("\x7b\"type\":\"text\",\"text\":\"".toList ++ imageCompactPlaceholder ++
    "\"\x7d".toList)

theorem byteLen_placeholder : byteLen imageCompactPlaceholder = 213 := by
  refine (byteLen_toList_append _ _).trans (Eq.trans (congrArg₂ (· + ·)
    ((byteLen_toList_append _ _).trans (congrArg₂ (· + ·) (byteLen_ofList _) (byteLen_ofList _)))
    (byteLen_ofList _)) ?_)
  decide

theorem placeholderBytes_eq : placeholderBytes = 238 := by
  rw [placeholderBytes, byteLen_append, byteLen_append, byteLen_placeholder]
  decide

/-- The parts of a user item. -/
def userParts : ConversationItem → List ContentPart
  | .user u => u.content
  | _ => []

def blankPart : ContentPart → ContentPart
  | .image _ => .image []
  | .text t => .text t

/-- An item with `*url = ""` in each image. -/
def blank : ConversationItem → ConversationItem
  | .user u => .user { u with content := u.content.map blankPart }
  | item => item

def urlBytes : ContentPart → Nat
  | .image url => byteLen url
  | .text _ => 0

def imageUrlBytes (conversation : Conversation) : Nat :=
  (conversation.map fun item => ((userParts item).map urlBytes).sum).sum

section Body

variable (itemJsonBytes : ConversationItem → Nat)

/-- `serialized_json_bytes` of a vector: the brackets, the items and the
commas between them. -/
def serializedJsonBytes (items : Conversation) : Nat :=
  2 + (items.map itemJsonBytes).sum + (items.length - 1)

def conversationBodyBytes (conversation : Conversation) : Nat :=
  serializedJsonBytes itemJsonBytes (conversation.map blank) + imageUrlBytes conversation

theorem conversationBodyBytes_append (c added : Conversation) :
    conversationBodyBytes itemJsonBytes c ≤ conversationBodyBytes itemJsonBytes (c ++ added) := by
  simp only [conversationBodyBytes, serializedJsonBytes, imageUrlBytes, map_append,
    List.sum_append, length_append, length_map]
  omega

end Body

/-! ## Image positions -/

/-- `(item_idx, part_idx, image_bytes)`. -/
structure ImageSite where
  item : Nat
  part : Nat
  bytes : Nat
  deriving DecidableEq

/-- The inner loop of the scan, over the parts of item `i` from part `j` on. -/
def partImages (i : Nat) : Nat → List ContentPart → List ImageSite
  | _, [] => []
  | j, .image url :: parts => ⟨i, j, imagePartBytes url⟩ :: partImages i (j + 1) parts
  | j, .text _ :: parts => partImages i (j + 1) parts

/-- The scan from item `i` on. -/
def imagesFrom : Nat → Conversation → List ImageSite
  | _, [] => []
  | i, item :: rest => partImages i 0 (userParts item) ++ imagesFrom (i + 1) rest

/-- `images`, oldest first. -/
def images (conversation : Conversation) : List ImageSite := imagesFrom 0 conversation

/-- The part that stands at a position. -/
def partAt (conversation : Conversation) (item part : Nat) : Option ContentPart :=
  (conversation[item]?).bind fun x => (userParts x)[part]?

/-- One position comes before another. -/
def ImageSite.Before (s t : ImageSite) : Prop :=
  s.item < t.item ∨ s.item = t.item ∧ s.part < t.part

variable {s : ImageSite}

theorem mem_partImages {i j : Nat} {parts : List ContentPart} (h : s ∈ partImages i j parts) :
    s.item = i ∧ j ≤ s.part ∧
      ∃ url, parts[s.part - j]? = some (.image url) ∧ s.bytes = imagePartBytes url := by
  induction parts generalizing j with
  | nil => simp [partImages] at h
  | cons part parts ih =>
    -- a site of the rest is one position further
    have hrest : s ∈ partImages i (j + 1) parts →
        s.item = i ∧ j ≤ s.part ∧
          ∃ url, (part :: parts)[s.part - j]? = some (.image url) ∧
            s.bytes = imagePartBytes url := by
      intro hs
      obtain ⟨hi, hj, url, hurl, hbytes⟩ := ih hs
      refine ⟨hi, by omega, url, ?_, hbytes⟩
      rw [show s.part - j = s.part - (j + 1) + 1 by omega, getElem?_cons_succ]
      exact hurl
    cases part with
    | text t => exact hrest h
    | image url =>
      rcases mem_cons.mp h with rfl | h
      · exact ⟨rfl, Nat.le_refl _, url, by simp, rfl⟩
      · exact hrest h

variable {conversation : Conversation}

theorem mem_imagesFrom {i : Nat} (h : s ∈ imagesFrom i conversation) :
    i ≤ s.item ∧ ∃ url, partAt conversation (s.item - i) s.part = some (.image url) ∧
      s.bytes = imagePartBytes url := by
  induction conversation generalizing i with
  | nil => simp [imagesFrom] at h
  | cons item rest ih =>
    rw [imagesFrom, mem_append] at h
    rcases h with h | h
    · obtain ⟨hi, -, url, hurl, hbytes⟩ := mem_partImages h
      refine ⟨hi.ge, url, ?_, hbytes⟩
      rw [hi, Nat.sub_self]
      simpa [partAt] using hurl
    · obtain ⟨hi, url, hurl, hbytes⟩ := ih h
      refine ⟨by omega, url, ?_, hbytes⟩
      rw [show s.item - i = s.item - (i + 1) + 1 by omega]
      simpa [partAt] using hurl

theorem mem_images_bytes (h : s ∈ images conversation) :
    ∃ url, partAt conversation s.item s.part = some (.image url) ∧
      s.bytes = imagePartBytes url :=
  (mem_imagesFrom h).2

theorem mem_images (h : s ∈ images conversation) :
    ∃ url, partAt conversation s.item s.part = some (.image url) := by
  obtain ⟨url, hurl, -⟩ := mem_images_bytes h
  exact ⟨url, hurl⟩

theorem partAt_item_lt {a b : Nat} {p : ContentPart} (h : partAt conversation a b = some p) :
    a < conversation.length := by
  by_contra hge
  rw [partAt, getElem?_eq_none (Nat.le_of_not_lt hge)] at h
  cases h

theorem before_partImages (i j : Nat) (parts : List ContentPart) :
    (partImages i j parts).Pairwise ImageSite.Before := by
  induction parts generalizing j with
  | nil => exact .nil
  | cons part parts ih =>
    cases part with
    | text t => exact ih (j + 1)
    | image url =>
      refine .cons (fun t ht => ?_) (ih (j + 1))
      obtain ⟨hi, hj, -⟩ := mem_partImages ht
      exact .inr ⟨hi.symm, hj⟩

theorem before_imagesFrom (i : Nat) (conversation : Conversation) :
    (imagesFrom i conversation).Pairwise ImageSite.Before := by
  induction conversation generalizing i with
  | nil => exact .nil
  | cons item rest ih =>
    refine pairwise_append.mpr ⟨before_partImages i 0 _, ih (i + 1), fun s hs t ht => ?_⟩
    have hsi : s.item = i := (mem_partImages hs).1
    have hti : i + 1 ≤ t.item := (mem_imagesFrom ht).1
    exact .inl (by omega)

theorem imagesFrom_append (i : Nat) (c added : Conversation) :
    imagesFrom i (c ++ added) = imagesFrom i c ++ imagesFrom (i + c.length) added := by
  induction c generalizing i with
  | nil => simp [imagesFrom]
  | cons item rest ih =>
    rw [cons_append, imagesFrom, imagesFrom, ih, append_assoc, length_cons,
      show i + 1 + rest.length = i + (rest.length + 1) by omega]

theorem images_append (c added : Conversation) :
    images (c ++ added) = images c ++ imagesFrom c.length added := by
  rw [images, imagesFrom_append, Nat.zero_add, images]

/-! ## The loop -/

/-- `*part = placeholder`. -/
def replacePart (j : Nat) : ConversationItem → ConversationItem
  | .user u => .user { u with content := u.content.set j placeholder }
  | item => item

def replaceAt (conversation : Conversation) (s : ImageSite) : Conversation :=
  conversation.modify s.item (replacePart s.part)

@[simp] theorem userParts_replacePart (j : Nat) (item : ConversationItem) :
    userParts (replacePart j item) = (userParts item).set j placeholder := by
  cases item with
  | user u => rfl
  | system | assistant | toolResult | backendToolCall | reasoning => rfl

theorem partAt_replaceAt (conversation : Conversation) (s : ImageSite) (a b : Nat) :
    partAt (replaceAt conversation s) a b =
      if s.item = a ∧ s.part = b then (partAt conversation a b).map fun _ => placeholder
      else partAt conversation a b := by
  rw [partAt, partAt, replaceAt, getElem?_modify]
  cases conversation[a]? with
  | none => simp
  | some item =>
    by_cases ha : s.item = a
    · rw [ha]
      simp only [if_true, map_some, bind_some, userParts_replacePart,
        getElem?_set', true_and, Option.map_eq_map]
      rfl
    · simp [ha]

theorem length_replaceAt (conversation : Conversation) (s : ImageSite) :
    (replaceAt conversation s).length = conversation.length := length_modify ..

theorem replaceAt_append {c : Conversation} (h : s.item < c.length) (added : Conversation) :
    replaceAt (c ++ added) s = replaceAt c s ++ added := by
  simp only [replaceAt, modify_eq_take_cons_drop h,
    modify_eq_take_cons_drop (h.trans_le (length_append ▸ Nat.le_add_right ..)),
    take_append_of_le_length h.le, drop_append_of_le_length h,
    getElem_append_left h, append_assoc, cons_append]

/-- The oldest `k` images replaced. -/
def replaceOldest (k : Nat) (conversation : Conversation) : Conversation :=
  ((images conversation).take k).foldl replaceAt conversation

structure ImageEvictionOutcome where
  evicted : Nat
  bodyBytesAfter : Nat
  deriving DecidableEq

/-- `for &(i, j, image_bytes) in &images`. `none` is `conversation[i]` out of
range. -/
def evictLoop (targetBytes : Nat) : List ImageSite → Conversation → Nat → Nat →
    Option (Conversation × ImageEvictionOutcome)
  | [], conversation, running, evicted => some (conversation, ⟨evicted, running⟩)
  | s :: rest, conversation, running, evicted =>
    if running ≤ targetBytes then some (conversation, ⟨evicted, running⟩)
    else
      match conversation[s.item]? with
      | none => none
      | some (.user u) =>
        match u.content[s.part]? with
        | some _ =>
          evictLoop targetBytes rest (replaceAt conversation s)
            (running - (s.bytes - placeholderBytes)) (evicted + 1)
        | none => evictLoop targetBytes rest conversation running evicted
      | some _ => evictLoop targetBytes rest conversation running evicted

def compactImagesToByteBudget (conversation : Conversation) (currentBytes targetBytes : Nat) :
    Option (Conversation × ImageEvictionOutcome) :=
  if currentBytes ≤ targetBytes then some (conversation, ⟨0, currentBytes⟩)
  else evictLoop targetBytes (images conversation) conversation currentBytes 0

/-- What replacing an image gives back. -/
def ImageSite.saving (s : ImageSite) : Nat := s.bytes - placeholderBytes

/-- The savings of the images of a conversation, oldest first. -/
def savings (conversation : Conversation) : List Nat := (images conversation).map (·.saving)

/-- Every site of the list holds a part. -/
def Held (conversation : Conversation) (sites : List ImageSite) : Prop :=
  ∀ s ∈ sites, (partAt conversation s.item s.part).isSome

theorem held_images (conversation : Conversation) : Held conversation (images conversation) := by
  intro s hs
  obtain ⟨url, hurl⟩ := mem_images hs
  rw [hurl]
  rfl

theorem Held.replaceAt {sites : List ImageSite} (h : Held conversation (s :: sites)) :
    Held (replaceAt conversation s) sites := by
  intro t ht
  rw [partAt_replaceAt]
  have : (partAt conversation t.item t.part).isSome := h t (mem_cons_of_mem s ht)
  split
  · rwa [isSome_map]
  · exact this

/-- The loop finds a part at each site, and replaces what `shed` counts. -/
theorem evictLoop_eq {target : Nat} {sites : List ImageSite} (h : Held conversation sites)
    (running evicted : Nat) :
    evictLoop target sites conversation running evicted =
      some ((sites.take (shed target (sites.map (·.saving)) running)).foldl replaceAt conversation,
        ⟨evicted + shed target (sites.map (·.saving)) running,
          running - ((sites.map (·.saving)).take
            (shed target (sites.map (·.saving)) running)).sum⟩) := by
  induction sites generalizing conversation running evicted with
  | nil => simp [evictLoop]
  | cons s sites ih =>
    rw [evictLoop, map_cons, shed]
    by_cases hrun : running ≤ target
    · simp [hrun]
    · rw [if_neg hrun, if_neg hrun]
      have hs : (partAt conversation s.item s.part).isSome := h s mem_cons_self
      rw [partAt] at hs
      rcases hitem : conversation[s.item]? with _ | item
      · simp [hitem] at hs
      · rw [hitem, bind_some] at hs
        cases item with
        | user u =>
          obtain ⟨part, hpart⟩ := isSome_iff_exists.mp hs
          rw [userParts] at hpart
          simp only [hpart]
          have hsaving : s.bytes - placeholderBytes = s.saving := rfl
          rw [ih h.replaceAt, hsaving, Nat.sub_sub, take_succ_cons, take_succ_cons,
            foldl_cons, sum_cons, Nat.add_right_comm, Nat.add_assoc]
        | system | assistant | toolResult | backendToolCall | reasoning =>
          simp [userParts] at hs

/-! ## The step of a request -/

section Request

variable (itemJsonBytes : ConversationItem → Nat)

/-- Step 1 of `build_conversation_request`, on the working copy. -/
def compactImages (conversation : Conversation) :
    Option (Conversation × Option ImageEvictionOutcome) :=
  let bodyBytes := conversationBodyBytes itemJsonBytes conversation
  if imageCompactTriggerBytes ≤ bodyBytes then
    (compactImagesToByteBudget conversation bodyBytes imageCompactReclaimTargetBytes).map
      fun p => (p.1, some p.2)
  else some (conversation, none)

/-- How many images the step replaces. -/
def evictedImages (conversation : Conversation) : Nat :=
  if imageCompactTriggerBytes ≤ conversationBodyBytes itemJsonBytes conversation then
    shed imageCompactReclaimTargetBytes (savings conversation)
      (conversationBodyBytes itemJsonBytes conversation)
  else 0

theorem compactImages_eq (conversation : Conversation) :
    ∃ outcome, compactImages itemJsonBytes conversation =
      some (replaceOldest (evictedImages itemJsonBytes conversation) conversation, outcome) := by
  simp only [compactImages, evictedImages]
  by_cases htrigger : imageCompactTriggerBytes ≤ conversationBodyBytes itemJsonBytes conversation
  · simp only [htrigger, if_true, compactImagesToByteBudget]
    by_cases hfits : conversationBodyBytes itemJsonBytes conversation
        ≤ imageCompactReclaimTargetBytes
    · rw [if_pos hfits, shed_of_le hfits]
      exact ⟨_, rfl⟩
    · rw [if_neg hfits, evictLoop_eq (held_images conversation)]
      exact ⟨_, rfl⟩
  · simp only [htrigger, if_false]
    exact ⟨_, rfl⟩

theorem evictedImages_le (conversation : Conversation) :
    evictedImages itemJsonBytes conversation ≤ (images conversation).length := by
  rw [evictedImages]
  split
  · exact shed_le_length.trans_eq (length_map ..)
  · exact Nat.zero_le _

end Request

end GrokBuild.ChatActor
