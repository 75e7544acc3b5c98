import GrokBuild.ChatActor.Hysteresis

/-!
# Image eviction: the account

How large an item is in JSON, with the content of a user item spelled out as
`serde_json` writes it. The size that eviction keeps while it runs is then the
size of the body at every step (`bodyBytes_replaceAt`), so what it reports is
exact, and it stops as early as it can.
-/

namespace GrokBuild.ChatActor

open TextLines ChatHistory Str Shed List

/-! ## JSON sizes -/

/-- The bytes of a character in a JSON string. -/
def jsonCharBytes (c : Char) : Nat :=
  if c = '"' ∨ c = '\\' ∨ c.toNat ∈ [8, 9, 10, 12, 13] then 2
  else if c.toNat < 32 then 6
  else c.utf8Size

def jsonStringBytes (s : Text) : Nat := 2 + (s.map jsonCharBytes).sum

/-- A JSON array of `xs`. -/
def jsonArrayBytes {α : Type} (f : α → Nat) (xs : List α) : Nat :=
  2 + (xs.map f).sum + (xs.length - 1)

def partJsonBytes : ContentPart → Nat
  | .text t => byteLen "\x7b\"type\":\"text\",\"text\":\x7d".toList + jsonStringBytes t
  | .image url => byteLen "\x7b\"type\":\"image\",\"url\":\x7d".toList + jsonStringBytes url

section Sizes

/- The bytes of the other fields of a user item, and of an item of another kind. -/
variable (fieldBytes : Option SyntheticReason → Option Nat → Option Nat → Nat)
  (otherBytes : ConversationItem → Nat)

def itemBytes : ConversationItem → Nat
  | .user u => byteLen "\x7b\"type\":\"user\",\"content\":\x7d".toList +
      jsonArrayBytes partJsonBytes u.content +
      fieldBytes u.syntheticReason u.promptIndex u.cwdGeneration
  | item => otherBytes item

/-- `conversation_body_bytes`, with the sizes that `serde_json` writes. -/
def bodyBytes (conversation : Conversation) : Nat :=
  conversationBodyBytes (itemBytes fieldBytes otherBytes) conversation

end Sizes

/-- No character of the text is escaped in JSON. -/
def Plain (s : Text) : Prop := ∀ c ∈ s, jsonCharBytes c = c.utf8Size

theorem Plain.jsonStringBytes {s : Text} (h : Plain s) : jsonStringBytes s = 2 + byteLen s := by
  rw [ChatActor.jsonStringBytes, byteLen, map_congr_left h]

theorem plain_ofList {l : List Char} (h : l.all (fun c => jsonCharBytes c == c.utf8Size) = true) :
    Plain (String.ofList l).toList := by
  rw [String.toList_ofList]
  exact fun c hc => beq_iff_eq.mp (all_eq_true.mp h c hc)

theorem plain_append {s t : String} (hs : Plain s.toList) (ht : Plain t.toList) :
    Plain (s ++ t).toList := by
  rw [String.toList_append]
  exact fun c hc => (mem_append.mp hc).elim (hs c) (ht c)

theorem plain_placeholder : Plain imageCompactPlaceholder :=
  plain_append (plain_append (plain_ofList (by decide)) (plain_ofList (by decide)))
    (plain_ofList (by decide))

theorem partJsonBytes_placeholder : partJsonBytes placeholder = placeholderBytes := by
  have hfront : byteLen "\x7b\"type\":\"text\",\"text\":\x7d".toList = 23 := by decide
  have hopen : byteLen "\x7b\"type\":\"text\",\"text\":\"".toList = 23 := by decide
  have hclose : byteLen "\"\x7d".toList = 2 := by decide
  rw [placeholder, partJsonBytes, plain_placeholder.jsonStringBytes, placeholderBytes,
    byteLen_append, byteLen_append, hfront, hopen, hclose]
  omega

/-- A part with its address blanked, and the address. -/
def partBytes (part : ContentPart) : Nat := partJsonBytes (blankPart part) + urlBytes part

theorem partBytes_image (url : Text) : partBytes (.image url) = imagePartBytes url := by
  have hframe : partJsonBytes (.image []) = imagePartFrameBytes := by decide
  rw [partBytes, blankPart, urlBytes, hframe, imagePartBytes]

theorem partBytes_placeholder : partBytes placeholder = placeholderBytes := by
  rw [partBytes, placeholder, blankPart, urlBytes, Nat.add_zero, ← placeholder,
    partJsonBytes_placeholder]

theorem partBytes_eq {part : ContentPart} (h : ∀ url, part = .image url → Plain url) :
    partBytes part = partJsonBytes part := by
  cases part with
  | text t => rfl
  | image url =>
    have hempty : jsonStringBytes [] = 2 := rfl
    rw [partBytes, blankPart, urlBytes, partJsonBytes, partJsonBytes, (h url rfl).jsonStringBytes,
      hempty]
    omega

/-- An item without its parts. -/
def withoutParts : ConversationItem → ConversationItem
  | .user u => .user { u with content := [] }
  | item => item

/-! ## What one replacement changes -/

theorem sum_map_modify {α : Type} (f : α → Nat) (g : α → α) {xs : List α} {i : Nat} {a : α}
    (h : xs[i]? = some a) :
    ((xs.modify i g).map f).sum + f a = (xs.map f).sum + f (g a) := by
  induction xs generalizing i with
  | nil => cases h
  | cons x xs ih =>
    cases i with
    | zero =>
      obtain rfl : x = a := by simpa using h
      rw [modify_zero_cons, map_cons, map_cons, sum_cons, sum_cons]
      omega
    | succ i =>
      have hrest := ih (by simpa using h)
      rw [modify_succ_cons, map_cons, map_cons, sum_cons, sum_cons]
      omega

theorem sum_map_set {α : Type} (f : α → Nat) {xs : List α} {j : Nat} {a b : α}
    (h : xs[j]? = some a) : ((xs.set j b).map f).sum + f a = (xs.map f).sum + f b := by
  rw [set_eq_modify]
  exact sum_map_modify f _ h

section Account

variable (fieldBytes : Option SyntheticReason → Option Nat → Option Nat → Nat)
  (otherBytes : ConversationItem → Nat)

/-- An item with its addresses blanked, and the addresses. -/
def itemBodyBytes (item : ConversationItem) : Nat :=
  itemBytes fieldBytes otherBytes (blank item) + ((userParts item).map urlBytes).sum

theorem bodyBytes_eq (conversation : Conversation) :
    bodyBytes fieldBytes otherBytes conversation =
      jsonArrayBytes (itemBodyBytes fieldBytes otherBytes) conversation := by
  have hsum : ∀ items : Conversation,
      (items.map (itemBodyBytes fieldBytes otherBytes)).sum =
        ((items.map blank).map (itemBytes fieldBytes otherBytes)).sum +
          (items.map fun item => ((userParts item).map urlBytes).sum).sum := by
    intro items
    induction items with
    | nil => rfl
    | cons item items ih =>
      simp only [map_cons, sum_cons, ih, itemBodyBytes]
      omega
  rw [bodyBytes, conversationBodyBytes, serializedJsonBytes, imageUrlBytes, jsonArrayBytes, hsum,
    length_map]
  omega

theorem itemBodyBytes_user (u : UserItem) :
    itemBodyBytes fieldBytes otherBytes (.user u) =
      byteLen "\x7b\"type\":\"user\",\"content\":\x7d".toList + jsonArrayBytes partBytes u.content +
        fieldBytes u.syntheticReason u.promptIndex u.cwdGeneration := by
  have hsum : ∀ parts : List ContentPart, (parts.map partBytes).sum =
      ((parts.map blankPart).map partJsonBytes).sum + (parts.map urlBytes).sum := by
    intro parts
    induction parts with
    | nil => rfl
    | cons part parts ih =>
      simp only [map_cons, sum_cons, ih, partBytes]
      omega
  rw [itemBodyBytes, blank, itemBytes, userParts, jsonArrayBytes, jsonArrayBytes, hsum,
    length_map]
  dsimp only
  omega

variable {conversation : Conversation}

theorem bodyBytes_replaceAt {s : ImageSite} {url : Text}
    (h : partAt conversation s.item s.part = some (.image url)) :
    bodyBytes fieldBytes otherBytes (replaceAt conversation s) + imagePartBytes url =
      bodyBytes fieldBytes otherBytes conversation + placeholderBytes := by
  obtain ⟨item, hitem, hpart⟩ := Option.bind_eq_some_iff.mp h
  have hreplaced : itemBodyBytes fieldBytes otherBytes (replacePart s.part item) +
      imagePartBytes url = itemBodyBytes fieldBytes otherBytes item + placeholderBytes := by
    cases item with
    | user u =>
      have hset := sum_map_set partBytes (b := placeholder) hpart
      rw [partBytes_image, partBytes_placeholder] at hset
      rw [replacePart, itemBodyBytes_user, itemBodyBytes_user, jsonArrayBytes, jsonArrayBytes,
        length_set]
      rw [userParts] at hset
      dsimp only
      omega
    | system | assistant | toolResult | backendToolCall | reasoning => cases hpart
  have hmodify := sum_map_modify (itemBodyBytes fieldBytes otherBytes) (replacePart s.part) hitem
  rw [bodyBytes_eq, bodyBytes_eq, jsonArrayBytes, jsonArrayBytes, length_replaceAt, replaceAt]
  omega

theorem bodyBytes_exact (h : ∀ item ∈ conversation, ∀ url, .image url ∈ userParts item → Plain url) :
    bodyBytes fieldBytes otherBytes conversation =
      serializedJsonBytes (itemBytes fieldBytes otherBytes) conversation := by
  have hitem : ∀ item ∈ conversation,
      itemBodyBytes fieldBytes otherBytes item = itemBytes fieldBytes otherBytes item := by
    intro item hmem
    cases item with
    | user u =>
      have hparts : ∀ part ∈ u.content, partBytes part = partJsonBytes part := by
        intro part hpart
        refine partBytes_eq fun url heq => h _ hmem url ?_
        rw [← heq]
        exact hpart
      rw [itemBodyBytes_user, itemBytes, jsonArrayBytes, jsonArrayBytes,
        map_congr_left hparts]
    | system | assistant | toolResult | backendToolCall | reasoning =>
      exact Nat.add_zero _
  rw [bodyBytes_eq, jsonArrayBytes, serializedJsonBytes, map_congr_left hitem]

/-! ## The images that go -/

def isImage : ContentPart → Bool
  | .image _ => true
  | .text _ => false

/-- The item and the part of each image of the user items, oldest first. -/
def imagePlaces (conversation : Conversation) : List (Nat × Nat) :=
  conversation.zipIdx.flatMap fun item =>
    ((userParts item.1).zipIdx.filter fun part => isImage part.1).map fun part => (item.2, part.2)

theorem map_partImages (i j : Nat) (parts : List ContentPart) :
    (partImages i j parts).map (fun s => (s.item, s.part)) =
      ((parts.zipIdx j).filter fun part => isImage part.1).map fun part => (i, part.2) := by
  induction parts generalizing j with
  | nil => rfl
  | cons part parts ih =>
    cases part with
    | text t => exact ih (j + 1)
    | image url => exact congrArg ((i, j) :: ·) (ih (j + 1))

theorem map_imagesFrom (i : Nat) (conversation : Conversation) :
    (imagesFrom i conversation).map (fun s => (s.item, s.part)) =
      (conversation.zipIdx i).flatMap fun item =>
        ((userParts item.1).zipIdx.filter fun part => isImage part.1).map
          fun part => (item.2, part.2) := by
  induction conversation generalizing i with
  | nil => rfl
  | cons item rest ih =>
    rw [imagesFrom, map_append, map_partImages, ih, zipIdx_cons, flatMap_cons]

/-- The scan finds the images. -/
theorem map_images (conversation : Conversation) :
    (images conversation).map (fun s => (s.item, s.part)) = imagePlaces conversation :=
  map_imagesFrom 0 conversation

theorem length_images (conversation : Conversation) :
    (images conversation).length = (imagePlaces conversation).length := by
  rw [← map_images, length_map]

theorem exists_site_iff (conversation : Conversation) (k a b : Nat) :
    (∃ s ∈ (images conversation).take k, s.item = a ∧ s.part = b) ↔
      (a, b) ∈ (imagePlaces conversation).take k := by
  rw [← map_images, ← map_take, mem_map]
  simp only [Prod.mk.injEq]

/-- The first `k` images are the placeholder afterwards, and nothing else has changed. -/
structure Evicted (k : Nat) (before after : Conversation) : Prop where
  frame : after.map withoutParts = before.map withoutParts
  parts : ∀ a b, partAt after a b =
    if (a, b) ∈ (imagePlaces before).take k then some placeholder else partAt before a b

theorem withoutParts_foldl_replaceAt (sites : List ImageSite) (conversation : Conversation) :
    (sites.foldl replaceAt conversation).map withoutParts = conversation.map withoutParts := by
  induction sites generalizing conversation with
  | nil => rfl
  | cons s sites ih =>
    have hsame : ∀ item, withoutParts (replacePart s.part item) = withoutParts item := by
      intro item
      cases item with
      | user u => rfl
      | system | assistant | toolResult | backendToolCall | reasoning => rfl
    rw [foldl_cons, ih, replaceAt]
    apply ext_getElem?
    intro i
    rw [getElem?_map, getElem?_modify, getElem?_map]
    cases conversation[i]? with
    | none => rfl
    | some item =>
      by_cases hi : s.item = i
      · simp [hi, hsame]
      · simp [hi]

theorem evicted_replaceOldest (k : Nat) (conversation : Conversation) :
    Evicted k conversation (replaceOldest k conversation) where
  frame := withoutParts_foldl_replaceAt _ _
  parts := by
    intro a b
    rw [replaceOldest, partAt_foldl_replaceAt]
    simp only [exists_site_iff]
    split
    · rename_i hsite
      obtain ⟨s, hs, rfl, rfl⟩ := (exists_site_iff conversation k a b).mpr hsite
      obtain ⟨url, hurl⟩ := mem_images (mem_of_mem_take hs)
      rw [hurl, Option.map_some]
    · rfl

theorem conversation_ext {c c' : Conversation} (hframe : c.map withoutParts = c'.map withoutParts)
    (hparts : ∀ a b, partAt c a b = partAt c' a b) : c = c' := by
  apply ext_getElem?
  intro i
  have hitem := congrArg (fun items => items[i]?) hframe
  have hpart := hparts i
  simp only [getElem?_map] at hitem
  simp only [partAt] at hpart
  rcases hc : (c)[i]? with _ | item <;> rcases hc' : c'[i]? with _ | item' <;>
    rw [hc, hc'] at hitem hpart
  · cases hitem
  · cases hitem
  · have heq : withoutParts item = withoutParts item' := Option.some.inj hitem
    have hcontent : userParts item = userParts item' := ext_getElem? hpart
    cases item with
    | user u =>
      cases item' with
      | user u' =>
        cases u
        cases u'
        simp only [withoutParts, ConversationItem.user.injEq, UserItem.mk.injEq] at heq
        simp only [userParts] at hcontent
        simp [heq, hcontent]
      | system | assistant | toolResult | backendToolCall | reasoning => cases heq
    | system | assistant | toolResult | backendToolCall | reasoning =>
      cases item' with
      | user u' => cases heq
      | system | assistant | toolResult | backendToolCall | reasoning =>
        exact congrArg some heq

theorem Evicted.eq_replaceOldest {k : Nat} {before after : Conversation}
    (h : Evicted k before after) : after = replaceOldest k before := by
  have hk := evicted_replaceOldest k before
  refine conversation_ext (h.frame.trans hk.frame.symm) fun a b => ?_
  rw [h.parts, hk.parts]

theorem bodyBytes_foldl {sites : List ImageSite}
    (hsites : ∀ s ∈ sites, ∃ url, partAt conversation s.item s.part = some (.image url) ∧ s.bytes = imagePartBytes url)
    (hlong : ∀ s ∈ sites, placeholderBytes ≤ s.bytes) (hbefore : sites.Pairwise ImageSite.Before) :
    bodyBytes fieldBytes otherBytes (sites.foldl replaceAt conversation) +
      (sites.map (·.saving)).sum = bodyBytes fieldBytes otherBytes conversation := by
  induction sites generalizing conversation with
  | nil => rfl
  | cons s sites ih =>
    obtain ⟨url, hurl, hbytes⟩ := hsites s (.head _)
    have hs := hlong s (.head _)
    have hstep := bodyBytes_replaceAt fieldBytes otherBytes hurl
    have hrest : ∀ t ∈ sites, ∃ url, partAt (replaceAt conversation s) t.item t.part =
        some (.image url) ∧ t.bytes = imagePartBytes url := by
      intro t ht
      have hst : s.Before t := rel_of_pairwise_cons hbefore ht
      rw [partAt_replaceAt, if_neg]
      · exact hsites t (.tail _ ht)
      · rintro ⟨hitem, hpart⟩
        obtain hlt | ⟨-, hlt⟩ := hst
        · omega
        · omega
    have hfold := ih hrest (fun t ht => hlong t (.tail _ ht)) hbefore.of_cons
    rw [foldl_cons, map_cons, sum_cons, ImageSite.saving]
    omega

theorem bodyBytes_replaceOldest (hlong : ∀ s ∈ images conversation, placeholderBytes ≤ s.bytes)
    (k : Nat) :
    bodyBytes fieldBytes otherBytes (replaceOldest k conversation) +
      ((savings conversation).take k).sum = bodyBytes fieldBytes otherBytes conversation := by
  rw [savings, ← map_take]
  refine bodyBytes_foldl fieldBytes otherBytes (fun s hs => ?_) (fun s hs => ?_) ?_
  · exact mem_images_bytes (mem_of_mem_take hs)
  · exact hlong s (mem_of_mem_take hs)
  · exact (before_imagesFrom 0 conversation).sublist (take_sublist k _)

theorem long_images (hplain : ∀ item ∈ conversation, ∀ url, .image url ∈ userParts item → Plain url)
    (hlong : ∀ item ∈ conversation, ∀ url, .image url ∈ userParts item →
      partJsonBytes placeholder ≤ partJsonBytes (.image url)) :
    ∀ s ∈ images conversation, placeholderBytes ≤ s.bytes := by
  intro s hs
  obtain ⟨url, hurl, hbytes⟩ := mem_images_bytes hs
  obtain ⟨item, hitem, hpart⟩ := Option.bind_eq_some_iff.mp hurl
  have hmem := mem_of_getElem? hitem
  have himage := mem_of_getElem? hpart
  have heq : partBytes (.image url) = partJsonBytes (.image url) :=
    partBytes_eq fun url' h => by
      obtain rfl := ContentPart.image.inj h
      exact hplain item hmem url himage
  rw [hbytes, ← partBytes_image, heq, ← partJsonBytes_placeholder]
  exact hlong item hmem url himage

/-- Called with the size of the body, eviction replaces the fewest images, the
oldest ones, that bring the body down to the target, and reports the size of
what it leaves. -/
theorem compactImages_minimal {conversation : Conversation} (target : Nat)
    (hplain : ∀ item ∈ conversation, ∀ url, .image url ∈ userParts item → Plain url)
    (hlong : ∀ item ∈ conversation, ∀ url, .image url ∈ userParts item →
      partJsonBytes placeholder ≤ partJsonBytes (.image url)) :
    ∃ k ≤ (imagePlaces conversation).length, ∃ after,
      compactImagesToByteBudget conversation (bodyBytes fieldBytes otherBytes conversation) target =
        some (after, ⟨k, bodyBytes fieldBytes otherBytes after⟩) ∧
      Evicted k conversation after ∧
      (bodyBytes fieldBytes otherBytes after ≤ target ∨ k = (imagePlaces conversation).length) ∧
      (∀ j < k, ∀ fewer, Evicted j conversation fewer →
        target < bodyBytes fieldBytes otherBytes fewer) ∧
      bodyBytes fieldBytes otherBytes conversation =
        serializedJsonBytes (itemBytes fieldBytes otherBytes) conversation := by
  have hbody := bodyBytes_replaceOldest fieldBytes otherBytes (long_images hplain hlong)
  rw [← length_images]
  have hevicted : compactImagesToByteBudget conversation
        (bodyBytes fieldBytes otherBytes conversation) target =
      some (replaceOldest (shed target (savings conversation)
          (bodyBytes fieldBytes otherBytes conversation)) conversation,
        ⟨shed target (savings conversation) (bodyBytes fieldBytes otherBytes conversation),
          bodyBytes fieldBytes otherBytes (replaceOldest (shed target (savings conversation)
            (bodyBytes fieldBytes otherBytes conversation)) conversation)⟩) := by
    rw [compactImagesToByteBudget]
    by_cases hfits : bodyBytes fieldBytes otherBytes conversation ≤ target
    · rw [if_pos hfits, shed_of_le hfits]
      rfl
    · have hleft := Nat.eq_sub_of_add_eq (hbody (shed target (savings conversation)
        (bodyBytes fieldBytes otherBytes conversation)))
      rw [if_neg hfits, evictLoop_eq (held_images conversation), Nat.zero_add, hleft]
      rfl
  have hlength : (savings conversation).length = (images conversation).length := length_map _
  have hshed := @enough_shed target (bodyBytes fieldBytes otherBytes conversation)
    (savings conversation)
  have hmost := @shed_le_length target (bodyBytes fieldBytes otherBytes conversation)
    (savings conversation)
  generalize hk : shed target (savings conversation)
    (bodyBytes fieldBytes otherBytes conversation) = k at hevicted hshed hmost
  have hafter := hbody k
  refine ⟨k, by omega, replaceOldest k conversation, hevicted, evicted_replaceOldest k _, ?_, ?_,
    bodyBytes_exact fieldBytes otherBytes hplain⟩
  · obtain hfits | hall := hshed
    · left
      omega
    · right
      omega
  · intro j hj fewer hfewer
    have hnot : ¬ Enough target (savings conversation)
        (bodyBytes fieldBytes otherBytes conversation) j := by
      rw [← shed_le_iff]
      omega
    have hover := hbody j
    rw [hfewer.eq_replaceOldest]
    rw [Enough, not_or] at hnot
    omega

end Account

/-- Two images of 400 bytes, of which one has to go. -/
theorem compactImages_minimal_twoImages :
    ∃ k ≤ 2, ∃ after,
      compactImagesToByteBudget [imageMessage 400, imageMessage 400]
        (bodyBytes (fun _ _ _ => 0) (fun _ => 0) [imageMessage 400, imageMessage 400]) 800 =
        some (after, ⟨k, bodyBytes (fun _ _ _ => 0) (fun _ => 0) after⟩) ∧
      Evicted k [imageMessage 400, imageMessage 400] after ∧
      (bodyBytes (fun _ _ _ => 0) (fun _ => 0) after ≤ 800 ∨ k = 2) ∧
      (∀ j < k, ∀ fewer, Evicted j [imageMessage 400, imageMessage 400] fewer →
        800 < bodyBytes (fun _ _ _ => 0) (fun _ => 0) fewer) ∧
      bodyBytes (fun _ _ _ => 0) (fun _ => 0) [imageMessage 400, imageMessage 400] =
        serializedJsonBytes (itemBytes (fun _ _ _ => 0) (fun _ => 0))
          [imageMessage 400, imageMessage 400] := by
  have hplain : Plain (List.replicate 400 'A') := by
    intro c hc
    rw [eq_of_mem_replicate hc]
    decide
  have hpart : partJsonBytes (.image (List.replicate 400 'A')) =
      imagePartBytes (List.replicate 400 'A') := by
    rw [← partBytes_image, partBytes_eq]
    intro url heq
    rw [← ContentPart.image.inj heq]
    exact hplain
  have hlong : partJsonBytes placeholder ≤ partJsonBytes (.image (List.replicate 400 'A')) := by
    rw [hpart, partJsonBytes_placeholder, imagePartBytes, byteLen_replicate, placeholderBytes_eq]
    omega
  have hurl : ∀ item ∈ [imageMessage 400, imageMessage 400], ∀ url, .image url ∈ userParts item →
      url = List.replicate 400 'A' := by
    intro item hitem url hurl
    have heq : item = imageMessage 400 := by simpa using hitem
    rw [heq, imageMessage, userParts, mem_singleton, ContentPart.image.injEq] at hurl
    exact hurl
  exact compactImages_minimal _ _ 800 (fun item hitem url h => hurl item hitem url h ▸ hplain)
    (fun item hitem url h => hurl item hitem url h ▸ hlong)

end GrokBuild.ChatActor
