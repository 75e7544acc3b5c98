import GrokBuild.Rewind.Timeline
import Mathlib.Data.List.TakeWhile

/-!
# Rewind: the surviving timeline

Where a rewind marker does what it stands for: the replay of a log against
the replay of its surviving entries.
-/

namespace GrokBuild.Rewind

open TextLines ChatHistory List Option

variable (dir : SessionDir) (target : Nat)

/-- An entry as it follows the earlier ones on a timeline without rewinds. -/
def Fits (earlier : List Entry) : Entry → Prop
  | .prompt index chunks => index = begun earlier ∧ chunks ≠ []
  | .agent _ _ => 0 < begun earlier
  | .checkpoint info => info.promptIndexAtCompaction = begun earlier ∧ Readable dir info
  | .rewind _ => False

/-- A timeline: its prompts are 0, 1, 2 and so on, and nothing is rewound. -/
def Timeline (entries : List Entry) : Prop :=
  ∀ earlier e later, entries = earlier ++ e :: later → Fits dir earlier e

/-- The checkpoint that the replay has loaded last, and the entries since. -/
def sinceLoaded (entries : List Entry) : Option CheckpointInfo × List Entry :=
  entries.foldl (fun (loaded, since) e =>
    match e with
    | .checkpoint info =>
      if target < info.promptIndexAtCompaction then (loaded, since ++ [e]) else (some info, [])
    | e => (loaded, since ++ [e])) (none, [])

def Entry.HasText : Entry → Prop
  | .prompt _ chunks => chunks.flatten ≠ []
  | _ => True

/-- A rewind marker that the replay follows: it comes right after the prompt
it discards; or every prompt since the checkpoint that is loaded has text, and
the marker goes back to that checkpoint at most, which has no auto-continue
prompt; or it goes back to the very beginning, and no checkpoint was before
the first prompt. -/
def Followed (survivors : List Entry) (running : Bool) (markerTarget : Nat) : Prop :=
  (running = true ∧ ∃ chunks, survivors.getLast? = some (.prompt markerTarget chunks)) ∨
  match sinceLoaded target survivors with
  | (none, since) => ∀ e ∈ since, e.HasText
  | (some info, since) =>
    (info.promptIndexAtCompaction ≤ markerTarget ∧ info.autoContinue = none ∧
      ∀ e ∈ since, e.HasText) ∨
    (markerTarget = 0 ∧ ∀ info, .checkpoint info ∈ survivors → info.promptIndexAtCompaction ≠ 0)

/-- The replay follows every marker of the log that goes on from the survivors. -/
def FollowsAll : List Entry → Bool → List Entry → Prop
  | _, _, [] => True
  | survivors, running, e :: entries =>
    (match e with
      | .rewind markerTarget => Followed target survivors running markerTarget
      | _ => True) ∧
    FollowsAll (survive survivors e) (turnAfter running e) entries

/-! ## Timelines -/

variable {dir target} {entries : List Entry}

theorem Timeline.nil : Timeline dir [] := by
  intro earlier e later h
  cases earlier <;> cases h
variable {later : List Entry}

theorem Timeline.append_left (h : Timeline dir (entries ++ later)) :
    Timeline dir entries := by
  intro earlier e rest hsplit
  exact h earlier e (rest ++ later) (by rw [hsplit]; simp)
variable {e : Entry}

theorem Timeline.last (h : Timeline dir (entries ++ [e])) : Fits dir entries e :=
  h entries e [] rfl

theorem Timeline.snoc (h : Timeline dir entries) (he : Fits dir entries e) :
    Timeline dir (entries ++ [e]) := by
  intro earlier e' later hsplit
  rcases eq_nil_or_concat later with rfl | ⟨later', last, rfl⟩
  · obtain ⟨rfl, hlast⟩ := append_inj' hsplit rfl
    exact (List.cons.inj hlast).1 ▸ he
  · have hsplit' : entries ++ [e] = (earlier ++ e' :: later') ++ [last] := by simp [hsplit]
    exact h earlier e' later' (append_inj' hsplit' rfl).1

@[simp] theorem begun_append (earlier later : List Entry) :
    begun (earlier ++ later) = begun earlier + begun later := countP_append

@[simp] theorem begun_nil : begun [] = 0 := rfl

@[simp] theorem begun_cons_prompt (index : Nat) (chunks : List Text) (later : List Entry) :
    begun (.prompt index chunks :: later) = begun later + 1 := countP_cons_of_pos rfl

@[simp] theorem begun_cons_agent (text : Text) (promptIndex : Option Nat) (later : List Entry) :
    begun (.agent text promptIndex :: later) = begun later :=
  countP_cons_of_neg (by simp [Entry.isPrompt])

@[simp] theorem begun_cons_checkpoint (info : CheckpointInfo) (later : List Entry) :
    begun (.checkpoint info :: later) = begun later :=
  countP_cons_of_neg (by simp [Entry.isPrompt])

theorem Timeline.exists_prompt (h : Timeline dir entries) {index : Nat}
    (hlt : index < begun entries) : ∃ chunks, .prompt index chunks ∈ entries := by
  induction entries using List.reverseRecOn with
  | nil => cases hlt
  | append_singleton earlier e ih =>
    by_cases hearlier : index < begun earlier
    · obtain ⟨chunks, hmem⟩ := ih h.append_left hearlier
      exact ⟨chunks, mem_append_left _ hmem⟩
    · have hfits := h.last
      cases e with
      | prompt index' chunks =>
        have hindex : index = index' := by
          have hbegun := hfits.1
          simp only [begun_append, begun_cons_prompt, begun_nil] at hlt
          omega
        exact ⟨chunks, by simp [hindex]⟩
      | agent text promptIndex => exact absurd (by simpa using hlt) hearlier
      | checkpoint info => exact absurd (by simpa using hlt) hearlier
      | rewind markerTarget => exact hfits.elim

theorem Timeline.before_split (h : Timeline dir entries) {markerTarget : Nat}
    (hlt : markerTarget < begun entries) :
    ∃ chunks later, entries = before markerTarget entries ++ .prompt markerTarget chunks :: later ∧
      begun (before markerTarget entries) = markerTarget := by
  have hsplit := (takeWhile_append_dropWhile (l := entries)
    (p := fun e => !e.beginsFrom markerTarget)).symm
  have hnot : ∀ chunks, .prompt markerTarget chunks ∉ before markerTarget entries := by
    intro chunks hmem
    have hkept := mem_takeWhile_imp hmem
    simp [Entry.beginsFrom] at hkept
  have hle : begun (before markerTarget entries) ≤ markerTarget := by
    by_contra hgt
    have htimeline : Timeline dir (before markerTarget entries) := by
      rw [hsplit] at h
      exact h.append_left
    obtain ⟨chunks, hmem⟩ := htimeline.exists_prompt (Nat.lt_of_not_le hgt)
    exact hnot chunks hmem
  cases hdrop : entries.dropWhile fun e => !e.beginsFrom markerTarget with
  | nil =>
    obtain ⟨chunks, hmem⟩ := h.exists_prompt hlt
    rw [hsplit, hdrop, append_nil] at hmem
    exact absurd hmem (hnot chunks)
  | cons e later =>
    rw [hdrop] at hsplit
    have hbegins : e.beginsFrom markerTarget = true := by
      have hne : (entries.dropWhile fun e => !e.beginsFrom markerTarget) ≠ [] := by
        rw [hdrop]
        exact cons_ne_nil _ _
      have hhead := head_dropWhile_not (fun e => !Entry.beginsFrom markerTarget e) hne
      simpa [hdrop] using hhead
    have hfits := h _ _ _ hsplit
    cases e with
    | prompt index chunks =>
      have hindex : markerTarget ≤ index := by simpa [Entry.beginsFrom] using hbegins
      have hbegun : index = begun (before markerTarget entries) := hfits.1
      obtain rfl : index = markerTarget := by omega
      exact ⟨chunks, later, hsplit, hbegun.symm⟩
    | agent | checkpoint | rewind => cases hbegins

/-! ## What a timeline is replayed to -/

def isUser : ConversationItem → Bool
  | .user _ => true
  | _ => false

def turnsIn (items : List ConversationItem) : Nat := items.countP isUser

def Pending.turns : Pending → Nat
  | .user _ _ => 1
  | _ => 0

/-- The items, mark and index that a loaded checkpoint starts from. -/
def loadedItems (dir : SessionDir) : Option CheckpointInfo → List ConversationItem
  | none => []
  | some info => dir.history info ++ (info.autoContinue.map ConversationItem.ofUser).toList

def loadedMark (dir : SessionDir) : Option CheckpointInfo → Option (Nat × Nat)
  | none => none
  | some info => some ((dir.history info).length, info.promptIndexAtCompaction)

def loadedIndex : Option CheckpointInfo → Nat
  | none => 0
  | some info => info.promptIndexAtCompaction

/-- The items behind the checkpoint, one turn for each prompt with text. -/
structure Shape (dir : SessionDir) (target : Nat) (entries : List Entry) (b : Branch)
    (items : List ConversationItem) : Prop where
  conversation : b.conversation = loadedItems dir (sinceLoaded target entries).1 ++ items
  checkpoint : b.checkpoint = loadedMark dir (sinceLoaded target entries).1
  promptCounter : b.promptCounter = loadedIndex (sinceLoaded target entries).1 + turnsIn items
  marked : MarkedBelow (begun entries) items
  fresh : ∀ index text, b.pending = .user index text → index < begun entries
  turns : turnsIn items + b.pending.turns ≤ begun (sinceLoaded target entries).2
  exact : (∀ e ∈ (sinceLoaded target entries).2, e.HasText) →
    turnsIn items + b.pending.turns = begun (sinceLoaded target entries).2 ∧
      ∀ index, b.pending ≠ .user index []
  /-- Before the first prompt there is nothing. -/
  idle : begun entries = 0 → items = [] ∧ b.pending = .none

variable {b : Branch} {items : List ConversationItem}

@[simp] theorem turnsIn_append (items items' : List ConversationItem) :
    turnsIn (items ++ items') = turnsIn items + turnsIn items' := countP_append

@[simp] theorem turnsIn_user (index : Nat) (text : Text) : turnsIn [userItem index text] = 1 := rfl

@[simp] theorem turnsIn_assistant (text : Text) : turnsIn [.ofAssistant text] = 0 := rfl

theorem markedBelow_user {index bound : Nat} (h : index < bound) (text : Text) :
    MarkedBelow bound [userItem index text] := by
  intro u hu
  obtain rfl := ConversationItem.user.inj (mem_singleton.mp hu)
  exact ⟨index, h, rfl⟩

theorem markedBelow_assistant (bound : Nat) (text : Text) :
    MarkedBelow bound [.ofAssistant text] := by
  intro u hu
  cases mem_singleton.mp hu

theorem Shape.settle (h : Shape dir target entries b items) :
    ∃ items', Shape dir target entries b.settle items' := by
  have hnone := b.pending_settle
  have hturns := h.turns
  have hexact := h.exact
  cases hb : b.pending with
  | none =>
    have hsame : b.settle = b := by
      unfold Branch.settle
      rw [hb]
    rw [hsame]
    exact ⟨items, h⟩
  | user index text =>
    by_cases htext : text = []
    · have hsettle : b.settle = { b with pending := .none } := by
        unfold Branch.settle
        simp only [hb, htext, if_true]
      rw [hsettle]
      refine ⟨items, h.conversation, h.checkpoint, h.promptCounter, h.marked, ?_, ?_, ?_,
        fun hzero => ⟨(h.idle hzero).1, rfl⟩⟩
      · intro index' text' hpending
        cases hpending
      · exact Nat.le_trans (Nat.add_le_add_left (Nat.zero_le _) _) hturns
      · intro hall
        exact absurd (htext ▸ hb) ((hexact hall).2 index)
    · have hsettle : b.settle = { b with
          conversation := b.conversation ++ [userItem index text]
          promptCounter := b.promptCounter + 1
          pending := .none } := by
        unfold Branch.settle
        simp only [hb, htext, if_false]
      rw [hb] at hturns hexact
      rw [hsettle]
      refine ⟨items ++ [userItem index text], ?_, h.checkpoint, ?_, ?_, ?_, ?_, ?_, ?_⟩
      · simp [h.conversation]
      · simp [h.promptCounter, Nat.add_assoc]
      · exact h.marked.append (markedBelow_user (h.fresh index text hb) text)
      · intro index' text' hpending
        cases hpending
      · simpa [Pending.turns] using hturns
      · intro hall
        refine ⟨by simpa [Pending.turns] using (hexact hall).1, fun index' hpending => ?_⟩
        cases hpending
      · intro hzero
        have hidle := (h.idle hzero).2
        rw [hb] at hidle
        cases hidle
  | agent text =>
    have hsettle : b.settle = { b with
        conversation := b.conversation ++ [.ofAssistant text]
        pending := .none } := by
      unfold Branch.settle
      simp only [hb]
    rw [hb] at hturns hexact
    rw [hsettle]
    refine ⟨items ++ [.ofAssistant text], ?_, h.checkpoint, ?_, ?_, ?_, ?_, ?_, ?_⟩
    · simp [h.conversation]
    · simp [h.promptCounter]
    · exact h.marked.append (markedBelow_assistant _ text)
    · intro index' text' hpending
      cases hpending
    · simpa [Pending.turns] using hturns
    · intro hall
      refine ⟨by simpa [Pending.turns] using (hexact hall).1, fun index' hpending => ?_⟩
      cases hpending
    · intro hzero
      have hidle := (h.idle hzero).2
      rw [hb] at hidle
      cases hidle

/-- The replay's machine on a timeline. -/
def replayed (dir : SessionDir) (target : Nat) (entries : List Entry) : Branch :=
  Branch.new.run dir target entries

theorem replayed_snoc (entries : List Entry) (e : Entry) :
    replayed dir target (entries ++ [e]) = (replayed dir target entries).step dir target e := by
  simp [replayed, Branch.run]

theorem sinceLoaded_snoc (target : Nat) (entries : List Entry) (hloads : ∀ info, e = .checkpoint info →
    target < info.promptIndexAtCompaction) :
    sinceLoaded target (entries ++ [e]) =
      ((sinceLoaded target entries).1, (sinceLoaded target entries).2 ++ [e]) := by
  unfold sinceLoaded
  rw [foldl_append]
  cases e with
  | checkpoint info => exact if_pos (hloads info rfl)
  | prompt | agent | rewind => rfl

theorem sinceLoaded_loads (entries : List Entry) {info : CheckpointInfo}
    (hle : info.promptIndexAtCompaction ≤ target) :
    sinceLoaded target (entries ++ [.checkpoint info]) = (some info, []) := by
  unfold sinceLoaded
  rw [foldl_append]
  exact if_neg (Nat.not_lt.mpr hle)

theorem Shape.begin (h : Shape dir target entries b items) (hnone : b.pending = .none)
    (chunks : List Text) :
    Shape dir target (entries ++ [.prompt (begun entries) chunks])
      { b with pending := .user (begun entries) chunks.flatten } items := by
  have hsince := sinceLoaded_snoc target entries (e := .prompt (begun entries) chunks)
    (fun info hinfo => by cases hinfo)
  have hturns := h.turns
  have hexact := h.exact
  rw [hnone] at hturns hexact
  refine ⟨?_, ?_, ?_, h.marked.mono (by simp), ?_, ?_, ?_, fun hzero => by simp at hzero⟩
  · rw [hsince]
    exact h.conversation
  · rw [hsince]
    exact h.checkpoint
  · rw [hsince]
    exact h.promptCounter
  · intro index text hpending
    obtain ⟨rfl, -⟩ := Pending.user.inj hpending
    simp
  · rw [hsince]
    simpa [Pending.turns] using hturns
  · rw [hsince]
    intro hall
    refine ⟨?_, fun index hpending => ?_⟩
    · simpa [Pending.turns] using (hexact fun e he => hall e (mem_append_left _ he)).1
    · exact hall _ (mem_append_right _ (.head _)) (Pending.user.inj hpending).2

theorem Shape.answer (h : Shape dir target entries b items) (hturns : b.pending.turns = 0)
    (hpos : 0 < begun entries) (text text' : Text) (promptIndex : Option Nat) :
    Shape dir target (entries ++ [.agent text promptIndex]) { b with pending := .agent text' }
      items := by
  have hsince := sinceLoaded_snoc target entries (e := .agent text promptIndex)
    (fun info hinfo => by cases hinfo)
  have hle := h.turns
  have hexact := h.exact
  rw [hturns] at hle hexact
  refine ⟨?_, ?_, ?_, h.marked.mono (by simp), ?_, ?_, ?_, fun hzero => ?_⟩
  · rw [hsince]
    exact h.conversation
  · rw [hsince]
    exact h.checkpoint
  · rw [hsince]
    exact h.promptCounter
  · intro index text hpending
    cases hpending
  · rw [hsince]
    simpa [Pending.turns] using hle
  · rw [hsince]
    intro hall
    refine ⟨?_, fun index hpending => by cases hpending⟩
    simpa [Pending.turns] using (hexact fun e he => hall e (mem_append_left _ he)).1
  · simp only [begun_append, begun_cons_agent, begun_nil] at hzero
    omega

theorem Shape.skip (h : Shape dir target entries b items) {info : CheckpointInfo}
    (hskip : target < info.promptIndexAtCompaction) :
    Shape dir target (entries ++ [.checkpoint info]) b items := by
  have hsince := sinceLoaded_snoc target entries (e := .checkpoint info)
    (fun info' hinfo => Entry.checkpoint.inj hinfo ▸ hskip)
  refine ⟨?_, ?_, ?_, h.marked.mono (by simp), ?_, ?_, ?_, fun hzero => h.idle (by simpa using hzero)⟩
  · rw [hsince]
    exact h.conversation
  · rw [hsince]
    exact h.checkpoint
  · rw [hsince]
    exact h.promptCounter
  · intro index text hpending
    simpa using h.fresh index text hpending
  · rw [hsince]
    simpa using h.turns
  · rw [hsince]
    intro hall
    simpa using h.exact fun e he => hall e (mem_append_left _ he)

theorem Timeline.shape (h : Timeline dir entries) (target : Nat) :
    ∃ items, Shape dir target entries (replayed dir target entries) items := by
  induction entries using List.reverseRecOn with
  | nil =>
    refine ⟨[], rfl, rfl, rfl, ?_, ?_, Nat.le_refl _, ?_, fun _ => ⟨rfl, rfl⟩⟩
    · intro u hu
      cases hu
    · intro index text hpending
      cases hpending
    · exact fun _ => ⟨rfl, fun index hpending => by cases hpending⟩
  | append_singleton earlier e ih =>
    obtain ⟨items, hshape⟩ := ih h.append_left
    obtain ⟨items', hsettled⟩ := hshape.settle
    have hnone := (replayed dir target earlier).pending_settle
    have hfits := h.last
    rw [replayed_snoc]
    cases e with
    | prompt index chunks =>
      obtain ⟨rfl, -⟩ := hfits
      exact ⟨items', hsettled.begin hnone chunks⟩
    | agent text promptIndex =>
      show ∃ items, Shape dir target _ ((replayed dir target earlier).answer text) items
      unfold Branch.answer
      split
      · rename_i text' hb
        exact ⟨items, hshape.answer (by rw [hb]; rfl) hfits text _ promptIndex⟩
      · exact ⟨items', hsettled.answer (by rw [hnone]; rfl) hfits text _ promptIndex⟩
    | checkpoint info =>
      by_cases hskip : target < info.promptIndexAtCompaction
      · have hstep : (replayed dir target earlier).step dir target (.checkpoint info) =
            replayed dir target earlier := if_pos hskip
        rw [hstep]
        exact ⟨items, hshape.skip hskip⟩
      · have hstep : (replayed dir target earlier).step dir target (.checkpoint info) =
            .load dir info := if_neg hskip
        have hsince := sinceLoaded_loads earlier (Nat.not_lt.mp hskip)
        rw [hstep]
        refine ⟨[], ?_, ?_, ?_, ?_, ?_, ?_, ?_, fun _ => ⟨rfl, rfl⟩⟩
        · rw [hsince]
          simp [loadedItems, Branch.load]
        · rw [hsince]
          rfl
        · rw [hsince]
          rfl
        · intro u hu
          cases hu
        · intro index text hpending
          cases hpending
        · exact Nat.zero_le _
        · rw [hsince]
          exact fun _ => ⟨rfl, fun index hpending => by cases hpending⟩
    | rewind markerTarget => exact hfits.elim

theorem Timeline.total (h : Timeline dir entries) (target : Nat) :
    loadedIndex (sinceLoaded target entries).1 + begun (sinceLoaded target entries).2 =
      begun entries := by
  induction entries using List.reverseRecOn with
  | nil => rfl
  | append_singleton earlier e ih =>
    have htotal := ih h.append_left
    have hfits := h.last
    by_cases hloads : ∀ info, e = .checkpoint info → target < info.promptIndexAtCompaction
    · rw [sinceLoaded_snoc target earlier hloads, begun_append, begun_append, ← htotal,
        Nat.add_assoc]
    · push Not at hloads
      obtain ⟨info, rfl, hle⟩ := hloads
      rw [sinceLoaded_loads earlier hle]
      simpa [loadedIndex] using hfits.1

theorem Shape.counter_le (hshape : Shape dir target entries b items) (h : Timeline dir entries) :
    b.promptCounter ≤ begun entries := by
  have htotal := h.total target
  have hturns := hshape.turns
  rw [hshape.promptCounter]
  omega

/-! ## Cutting in front of a prompt -/

theorem cutAfterTurns_marked {bound : Nat} {u : UserItem} (hu : u.promptIndex.isSome)
    (tail : List ConversationItem) (hmarked : MarkedBelow bound items) (seen : Bool) :
    cutAfterTurns (turnsIn items) seen (items ++ .user u :: tail) = items.length := by
  induction items generalizing seen with
  | nil => simp [turnsIn, cutAfterTurns, countsAsReplayTurnProgressive, hu]
  | cons item items ih =>
    have hrest := ih fun u' hu' => hmarked u' (.tail _ hu')
    cases item with
    | user u' =>
      obtain ⟨index, -, hindex⟩ := hmarked u' (.head _)
      have hturns : turnsIn (.user u' :: items) = turnsIn items + 1 :=
        countP_cons_of_pos rfl
      simp [hturns, cutAfterTurns, countsAsReplayTurnProgressive, hindex, hrest]
    | system | assistant | toolResult | backendToolCall | reasoning =>
      have hturns : ∀ item, isUser item = false → turnsIn (item :: items) = turnsIn items := by
        intro item hitem
        exact countP_cons_of_neg (by simp [hitem])
      rw [hturns _ rfl]
      simp [cutAfterTurns, countsAsReplayTurnProgressive, hrest]

/-- The cut in front of a prompt leaves what there was when it began. -/
theorem Shape.cut {b₁ : Branch} (h : Shape dir target entries b₁ items)
    (htimeline : Timeline dir entries) (hnone : b₁.pending = .none)
    (htext : ∀ e ∈ (sinceLoaded target entries).2, e.HasText)
    (hauto : ∀ info, (sinceLoaded target entries).1 = some info → info.autoContinue = none)
    {text : Text} {tail : List ConversationItem} (hcheck : b.checkpoint = b₁.checkpoint)
    (hconv : b.conversation = b₁.conversation ++ userItem (begun entries) text :: tail) :
    (b.cut (begun entries)).conversation = b₁.conversation ∧
      (b.cut (begun entries)).checkpoint = b₁.checkpoint := by
  have htotal := htimeline.total target
  have hexact := (h.exact htext).1
  rw [hnone] at hexact
  have hconv₁ := h.conversation
  have hcheck₁ := h.checkpoint
  unfold Branch.cut
  cases hloaded : (sinceLoaded target entries).1 with
  | none =>
    rw [hloaded] at hconv₁ hcheck₁ htotal
    rw [hcheck, hcheck₁]
    simp only [loadedItems, nil_append] at hconv₁
    have hcut := truncateForPrompt_marked tail h.marked
      (show (UserItem.promptIndex ⟨[.text text], none, some (begun entries), none⟩) = _ from rfl)
    rw [← hconv₁] at hcut
    by_cases hzero : begun entries = 0
    · simp only [loadedMark, hzero, if_true]
      refine ⟨?_, trivial⟩
      rw [hconv₁, (h.idle hzero).1]
    · simp only [loadedMark, hzero, if_false]
      refine ⟨?_, trivial⟩
      rw [hconv, show userItem (begun entries) text = .user _ from rfl, hcut, take_left]
  | some info =>
    rw [hloaded] at hconv₁ hcheck₁ htotal
    rw [hcheck, hcheck₁]
    have hle : info.promptIndexAtCompaction ≤ begun entries := by
      simp only [loadedIndex] at htotal
      omega
    simp only [loadedMark, hle, if_true]
    refine ⟨?_, trivial⟩
    have hconv₁' : b₁.conversation = dir.history info ++ items := by
      rw [hconv₁]
      simp [loadedItems, hauto info hloaded]
    have hturns : begun entries - info.promptIndexAtCompaction = turnsIn items := by
      simp only [loadedIndex, Pending.turns] at htotal hexact
      omega
    rw [hconv, hconv₁', hturns, append_assoc, drop_left,
      show userItem (begun entries) text = .user _ from rfl,
      cutAfterTurns_marked rfl tail h.marked, ← append_assoc]
    exact take_left' (by simp)

/-- The prompt is still pending, or its message begins what came since. -/
def Past (b₁ : Branch) (index : Nat) (text : Text) (b : Branch) : Prop :=
  b.checkpoint = b₁.checkpoint ∧
  ((b.conversation = b₁.conversation ∧ b.promptCounter = b₁.promptCounter ∧
      b.pending = .user index text) ∨
    ∃ tail, b.conversation = b₁.conversation ++ userItem index text :: tail ∧
      b₁.promptCounter < b.promptCounter)

variable {b₁ : Branch} {index : Nat} {text : Text}

theorem Past.withPending (h : Past b₁ index text b) (hsettled : b.pending = .none)
    (pending : Pending) : Past b₁ index text { b with pending } := by
  obtain ⟨hcheck, ⟨-, -, hpending⟩ | hbehind⟩ := h
  · rw [hsettled] at hpending
    cases hpending
  · exact ⟨hcheck, .inr hbehind⟩

theorem Past.settle (h : Past b₁ index text b) (htext : text ≠ []) :
    Past b₁ index text b.settle := by
  obtain ⟨hcheck, ⟨hconv, hcount, hpending⟩ | ⟨tail, hconv, hcount⟩⟩ := h
  · refine ⟨b.checkpoint_settle.trans hcheck, .inr ⟨[], ?_, ?_⟩⟩
    · simp [Branch.settle, hpending, htext, hconv]
    · simp [Branch.settle, hpending, htext, hcount]
  · refine ⟨b.checkpoint_settle.trans hcheck, .inr ?_⟩
    unfold Branch.settle
    split
    · exact ⟨tail, hconv, hcount⟩
    · split
      · exact ⟨tail, hconv, hcount⟩
      · exact ⟨tail ++ [_], by simp [hconv]; rfl, Nat.lt_succ_of_lt hcount⟩
    · exact ⟨tail ++ [_], by simp [hconv]; rfl, hcount⟩

theorem Past.step (h : Past b₁ index text b) (htext : text ≠ []) {earlier : List Entry}
    (hfits : Fits dir earlier e)
    (hskips : ∀ info, e = .checkpoint info → target < info.promptIndexAtCompaction) :
    Past b₁ index text (b.step dir target e) := by
  have hsettled := (h.settle htext).withPending b.pending_settle
  cases e with
  | prompt index' chunks => exact hsettled _
  | agent text' promptIndex =>
    show Past b₁ index text (b.answer text')
    unfold Branch.answer
    split
    · rename_i hb
      obtain ⟨hcheck, ⟨-, -, hpending⟩ | hbehind⟩ := h
      · rw [hb] at hpending
        cases hpending
      · exact ⟨hcheck, .inr hbehind⟩
    · exact hsettled _
  | checkpoint info =>
    rw [show b.step dir target (.checkpoint info) = b from if_pos (hskips info rfl)]
    exact h
  | rewind markerTarget => exact hfits.elim

/-- From a prompt on, as long as no checkpoint is loaded. -/
theorem Timeline.past {chunks : List Text}
    (h : Timeline dir (entries ++ .prompt index chunks :: later)) (target : Nat)
    (htext : chunks.flatten ≠ [])
    (hskips : ∀ info, .checkpoint info ∈ later → target < info.promptIndexAtCompaction) :
    Past (replayed dir target entries).settle index chunks.flatten
      (replayed dir target (entries ++ .prompt index chunks :: later)) := by
  induction later using List.reverseRecOn with
  | nil =>
    rw [replayed_snoc]
    exact ⟨rfl, .inl ⟨rfl, rfl, rfl⟩⟩
  | append_singleton later e ih =>
    have hassoc : entries ++ .prompt index chunks :: (later ++ [e]) =
        (entries ++ .prompt index chunks :: later) ++ [e] := by simp
    rw [hassoc] at h ⊢
    have hpast := ih h.append_left fun info hinfo => hskips info (mem_append_left _ hinfo)
    rw [replayed_snoc]
    refine hpast.step htext h.last fun info he => hskips info ?_
    rw [he]
    exact mem_append_right _ (.head _)

theorem sinceLoaded_append
    (hskips : ∀ info, .checkpoint info ∈ later → target < info.promptIndexAtCompaction) :
    sinceLoaded target (entries ++ later) =
      ((sinceLoaded target entries).1, (sinceLoaded target entries).2 ++ later) := by
  induction later using List.reverseRecOn with
  | nil => simp
  | append_singleton later e ih =>
    rw [← append_assoc, sinceLoaded_snoc, ih fun info hinfo =>
      hskips info (mem_append_left _ hinfo), append_assoc]
    intro info he
    exact hskips info (mem_append_right _ (he ▸ .head _))

theorem mem_of_sinceLoaded {info : CheckpointInfo}
    (h : (sinceLoaded target entries).1 = some info) : .checkpoint info ∈ entries := by
  induction entries using List.reverseRecOn with
  | nil => cases h
  | append_singleton earlier e ih =>
    by_cases hloads : ∀ info, e = .checkpoint info → target < info.promptIndexAtCompaction
    · rw [sinceLoaded_snoc target earlier hloads] at h
      exact mem_append_left _ (ih h)
    · push Not at hloads
      obtain ⟨last, rfl, hlast⟩ := hloads
      rw [sinceLoaded_loads earlier hlast] at h
      rw [some.inj h]
      exact mem_append_right _ (.head _)

theorem Timeline.loaded_last (h : Timeline dir entries) (target : Nat) {info : CheckpointInfo}
    (hmem : .checkpoint info ∈ entries) (hle : info.promptIndexAtCompaction ≤ target) :
    ∃ info', (sinceLoaded target entries).1 = some info' ∧
      info.promptIndexAtCompaction ≤ info'.promptIndexAtCompaction := by
  induction entries using List.reverseRecOn with
  | nil => cases hmem
  | append_singleton earlier e ih =>
    have hfits := h.last
    by_cases hloads : ∀ info, e = .checkpoint info → target < info.promptIndexAtCompaction
    · have hearlier : .checkpoint info ∈ earlier := by
        rcases mem_append.mp hmem with hmem | hmem
        · exact hmem
        · have hlt := hloads info (mem_singleton.mp hmem).symm
          omega
      rw [sinceLoaded_snoc target earlier hloads]
      exact ih h.append_left hearlier
    · push Not at hloads
      obtain ⟨last, rfl, hlast⟩ := hloads
      rw [sinceLoaded_loads earlier hlast]
      refine ⟨last, rfl, ?_⟩
      rcases mem_append.mp hmem with hmem | hmem
      · obtain ⟨before, after, hsplit⟩ := append_of_mem hmem
        have hinfo := (h before (.checkpoint info) (after ++ [.checkpoint last]) (by simp [hsplit])).1
        rw [hinfo, hfits.1, hsplit, begun_append]
        omega
      · rw [Entry.checkpoint.inj (mem_singleton.mp hmem)]

/-! ## A marker that is followed -/

/-- The state in front of the marker: settled, where the last turn was rewound. -/
def standing (dir : SessionDir) (target : Nat) (entries : List Entry) (running : Bool) : Branch :=
  if running then replayed dir target entries else (replayed dir target entries).settle

theorem settle_of_none (h : b.pending = .none) : b.settle = b := by
  unfold Branch.settle
  rw [h]

theorem Timeline.standing_shape (h : Timeline dir entries) (running : Bool) :
    ∃ items, Shape dir target entries (standing dir target entries running) items := by
  obtain ⟨items, hshape⟩ := h.shape target
  unfold standing
  cases running with
  | true => exact ⟨items, hshape⟩
  | false => exact hshape.settle

theorem rewind_pending (hle : b₁.promptCounter ≤ index) (hnone : b₁.pending = .none) :
    Branch.rewind { b₁ with pending := .user index text } index = b₁ := by
  unfold Branch.rewind
  simp only [hle, if_true]
  rw [← hnone]

theorem Past.rewind (h : Past b₁ index text b) (hnone : b₁.pending = .none)
    (hcount : b₁.promptCounter = index)
    (hcut : ∀ {b : Branch} {tail : List ConversationItem}, b.checkpoint = b₁.checkpoint →
      b.conversation = b₁.conversation ++ userItem index text :: tail →
      (b.cut index).conversation = b₁.conversation ∧ (b.cut index).checkpoint = b₁.checkpoint) :
    b.rewind index = b₁ := by
  obtain ⟨hcheck, ⟨hconv, hcounter, -⟩ | ⟨tail, hconv, hlt⟩⟩ := h
  · have hle : b.promptCounter ≤ index := by omega
    unfold Branch.rewind
    simp only [hle, if_true]
    rw [hconv, hcounter, hcheck, ← hnone]
  · have hnot : ¬ b.promptCounter ≤ index := by omega
    unfold Branch.rewind
    simp only [hnot, if_false]
    obtain ⟨hconv', hcheck'⟩ := hcut (b := { b with pending := .none }) hcheck hconv
    have hpending' := Branch.pending_cut { b with pending := .none } index
    rw [hconv', hcheck', hpending', ← hcount, ← hnone]

/-- A marker that goes back behind what is loaded: the cut is where the prompt began. -/
theorem Timeline.rewind_since {chunks : List Text}
    (h : Timeline dir (entries ++ .prompt (begun entries) chunks :: later)) (running : Bool)
    (hloaded : ∀ info, (sinceLoaded target
      (entries ++ .prompt (begun entries) chunks :: later)).1 = some info →
      info.promptIndexAtCompaction ≤ begun entries ∧ info.autoContinue = none)
    (htext : ∀ e ∈ (sinceLoaded target
      (entries ++ .prompt (begun entries) chunks :: later)).2, e.HasText) :
    (standing dir target (entries ++ .prompt (begun entries) chunks :: later) running).rewind
      (begun entries) = (replayed dir target entries).settle := by
  have hskips : ∀ info, .checkpoint info ∈ .prompt (begun entries) chunks :: later →
      target < info.promptIndexAtCompaction := by
    intro info hmem
    have hlater : .checkpoint info ∈ later := by
      rcases mem_cons.mp hmem with heq | hmem
      · cases heq
      · exact hmem
    by_contra hle
    obtain ⟨last, hlast, hinfo⟩ := h.loaded_last target
      (mem_append_right _ hmem) (Nat.not_lt.mp hle)
    obtain ⟨before, after, hsplit⟩ := append_of_mem hlater
    have hfits := (h (entries ++ .prompt (begun entries) chunks :: before) (.checkpoint info) after
      (by simp [hsplit])).1
    have hback := (hloaded last hlast).1
    simp only [begun_append, begun_cons_prompt] at hfits
    omega
  rw [sinceLoaded_append hskips] at hloaded htext
  have hprompt : chunks.flatten ≠ [] := htext _ (mem_append_right _ (.head _))
  have hearlier : Timeline dir entries := h.append_left
  obtain ⟨items, hshape⟩ := hearlier.shape target
  obtain ⟨items', hsettled⟩ := hshape.settle
  have hnone := (replayed dir target entries).pending_settle
  have htext' : ∀ e ∈ (sinceLoaded target entries).2, e.HasText :=
    fun e he => htext e (mem_append_left _ he)
  have hcount : (replayed dir target entries).settle.promptCounter = begun entries := by
    have htotal := hearlier.total target
    have hexact := (hsettled.exact htext').1
    rw [hnone] at hexact
    rw [hsettled.promptCounter, ← htotal]
    simp only [Pending.turns] at hexact
    omega
  have hpast := h.past target hprompt fun info hinfo =>
    hskips info (.tail _ hinfo)
  have hpast' : Past (replayed dir target entries).settle (begun entries) chunks.flatten
      (standing dir target (entries ++ .prompt (begun entries) chunks :: later) running) := by
    unfold standing
    split
    · exact hpast
    · exact hpast.settle hprompt
  exact hpast'.rewind hnone hcount fun hcheck hconv =>
    hsettled.cut hearlier hnone htext' (fun info hinfo => (hloaded info hinfo).2) hcheck hconv

theorem Timeline.nil_of_idle (h : Timeline dir entries) (hzero : begun entries = 0)
    (hnone : ∀ info, .checkpoint info ∈ entries → info.promptIndexAtCompaction ≠ 0) :
    entries = [] := by
  cases entries with
  | nil => rfl
  | cons e later =>
    have hfits := h [] e later rfl
    cases e with
    | prompt index chunks => simp at hzero
    | agent text promptIndex => exact absurd hfits (Nat.lt_irrefl 0)
    | checkpoint info => exact absurd hfits.1 (hnone info (.head _))
    | rewind markerTarget => exact hfits.elim

theorem Shape.rewind_zero (h : Shape dir target entries b items) {info : CheckpointInfo}
    (hloaded : (sinceLoaded target entries).1 = some info)
    (hpos : info.promptIndexAtCompaction ≠ 0) : b.rewind 0 = .new := by
  have hcheck := h.checkpoint
  have hcount := h.promptCounter
  rw [hloaded] at hcheck hcount
  simp only [loadedMark, loadedIndex] at hcheck hcount
  have hnot : ¬ b.promptCounter ≤ 0 := by omega
  have hnot' : ¬ info.promptIndexAtCompaction ≤ 0 := by omega
  unfold Branch.rewind Branch.cut
  simp only [hnot, if_false, hcheck, hnot', if_true]
  rfl

theorem Followed.rewind {running : Bool} {markerTarget : Nat}
    (hfollowed : Followed target entries running markerTarget) (h : Timeline dir entries)
    (hlt : markerTarget < begun entries) :
    (standing dir target entries running).rewind markerTarget =
      (replayed dir target (before markerTarget entries)).settle := by
  obtain ⟨chunks, later, hsplit, hbegun⟩ := h.before_split hlt
  generalize before markerTarget entries = earlier at hsplit hbegun
  subst hbegun
  rw [hsplit] at h hfollowed ⊢
  have hearlier : Timeline dir earlier := h.append_left
  obtain ⟨items, hshape⟩ := hearlier.shape target
  obtain ⟨items', hsettled⟩ := hshape.settle
  have hnone := (replayed dir target earlier).pending_settle
  rcases hfollowed with ⟨rfl, chunks', hlast⟩ | hfollowed
  · -- the last entry is the prompt itself
    have hlater : later = [] := by
      rcases eq_nil_or_concat' later with rfl | ⟨later', last, rfl⟩
      · rfl
      · have hlast' : last = .prompt (begun earlier) chunks' := by
          rw [show earlier ++ .prompt (begun earlier) chunks :: (later' ++ [last]) =
            (earlier ++ .prompt (begun earlier) chunks :: later') ++ [last] by simp,
            getLast?_concat] at hlast
          exact some.inj hlast
        subst hlast'
        have hfits := (h (earlier ++ .prompt (begun earlier) chunks :: later')
          (.prompt (begun earlier) chunks') [] (by simp)).1
        simp only [begun_append, begun_cons_prompt] at hfits
        omega
    subst hlater
    unfold standing
    rw [if_pos rfl, replayed_snoc]
    exact rewind_pending (hsettled.counter_le hearlier) hnone
  · cases hloaded : (sinceLoaded target
        (earlier ++ .prompt (begun earlier) chunks :: later)).1 with
    | none =>
      rw [← Prod.eta (sinceLoaded _ _), hloaded] at hfollowed
      exact h.rewind_since running (fun info hinfo => by rw [hloaded] at hinfo; cases hinfo)
        hfollowed
    | some info =>
      rw [← Prod.eta (sinceLoaded _ _), hloaded] at hfollowed
      rcases hfollowed with ⟨hle, hauto, htext⟩ | ⟨hzero, hnocheck⟩
      · refine h.rewind_since running (fun info' hinfo' => ?_) htext
        obtain rfl := some.inj (hloaded.symm.trans hinfo')
        exact ⟨hle, hauto⟩
      · obtain rfl := hearlier.nil_of_idle hzero fun info' hinfo' =>
          hnocheck info' (mem_append_left _ hinfo')
        obtain ⟨items'', hstanding⟩ := h.standing_shape running
        exact hstanding.rewind_zero hloaded (hnocheck info (mem_of_sinceLoaded hloaded))

/-! ## Whole logs -/

theorem fits_of_loggable {running : Bool} (h : Loggable dir entries running e)
    (hrunning : running = true → 0 < begun entries) (hrewind : ∀ index, e ≠ .rewind index) :
    Fits dir entries e := by
  cases e with
  | prompt index chunks => exact h
  | agent text promptIndex => exact hrunning h
  | checkpoint info => exact h
  | rewind markerTarget => exact absurd rfl (hrewind markerTarget)

theorem begun_of_turnAfter {running : Bool}
    (hrunning : running = true → 0 < begun entries) (hafter : turnAfter running e = true) :
    0 < begun (survive entries e) := by
  cases e with
  | prompt index chunks => simp [survive]
  | agent text promptIndex => simpa [survive] using hrunning hafter
  | checkpoint info => simpa [survive] using hrunning hafter
  | rewind markerTarget => cases hafter

/-- After each entry the replay stands where the survivors alone bring it. -/
theorem standing_survive {running : Bool} (htimeline : Timeline dir entries)
    (hlog : Loggable dir entries running e) (hrunning : running = true → 0 < begun entries)
    (hfollowed : ∀ markerTarget, e = .rewind markerTarget →
      Followed target entries running markerTarget) :
    (standing dir target entries running).step dir target e =
        standing dir target (survive entries e) (turnAfter running e) ∧
      Timeline dir (survive entries e) := by
  by_cases hrewind : ∃ markerTarget, e = .rewind markerTarget
  · obtain ⟨markerTarget, rfl⟩ := hrewind
    refine ⟨(hfollowed markerTarget rfl).rewind htimeline hlog, ?_⟩
    obtain ⟨chunks, later, hsplit, -⟩ := htimeline.before_split hlog
    rw [hsplit] at htimeline
    exact htimeline.append_left
  · have hfits := fits_of_loggable hlog hrunning fun index hindex => hrewind ⟨index, hindex⟩
    have hsurvive : survive entries e = entries ++ [e] := by
      cases e with
      | rewind markerTarget => exact absurd ⟨markerTarget, rfl⟩ hrewind
      | prompt | agent | checkpoint => rfl
    rw [hsurvive]
    refine ⟨?_, htimeline.snoc hfits⟩
    cases running with
    | true =>
      have hafter : turnAfter true e = true := by
        cases e with
        | rewind markerTarget => exact absurd ⟨markerTarget, rfl⟩ hrewind
        | prompt | agent | checkpoint => rfl
      rw [hafter]
      exact (replayed_snoc entries e).symm
    | false =>
      show (replayed dir target entries).settle.step dir target e = _
      cases e with
      | prompt index chunks =>
        show Branch.begin _ _ _ = replayed dir target _
        rw [replayed_snoc]
        show Branch.begin _ _ _ = Branch.begin _ _ _
        unfold Branch.begin
        rw [settle_of_none (replayed dir target entries).pending_settle]
      | agent text promptIndex => cases hlog
      | checkpoint info =>
        show _ = (replayed dir target (entries ++ [.checkpoint info])).settle
        rw [replayed_snoc]
        by_cases hskip : target < info.promptIndexAtCompaction
        · simp only [Branch.step, hskip, if_true]
        · simp only [Branch.step, hskip, if_false]
          exact (settle_of_none rfl).symm
      | rewind markerTarget => exact absurd ⟨markerTarget, rfl⟩ hrewind

theorem standing_run {running : Bool} {log : List Entry} (htimeline : Timeline dir entries)
    (hrunning : running = true → 0 < begun entries) (hlog : Logged dir entries running log)
    (hfollows : FollowsAll target entries running log) :
    ∃ running', (standing dir target entries running).run dir target log =
        standing dir target (log.foldl survive entries) running' ∧
      Timeline dir (log.foldl survive entries) := by
  induction log generalizing entries running with
  | nil => exact ⟨running, rfl, htimeline⟩
  | cons e log ih =>
    obtain ⟨hentry, hrest⟩ := hlog
    obtain ⟨hmarker, hfollows⟩ := hfollows
    obtain ⟨hstep, htimeline'⟩ := standing_survive htimeline hentry hrunning
      fun markerTarget he => by
        subst he
        exact hmarker
    obtain ⟨running', hrun, hlast⟩ := ih htimeline' (begun_of_turnAfter hrunning) hrest hfollows
    refine ⟨running', ?_, hlast⟩
    show ((standing dir target entries running).step dir target e).run dir target log = _
    rw [hstep]
    exact hrun

theorem Timeline.logged {log : List Entry} (h : Timeline dir (entries ++ log)) {running : Bool}
    (hrunning : 0 < begun entries → running = true) : Logged dir entries running log := by
  induction log generalizing entries running with
  | nil => trivial
  | cons e log ih =>
    have hfits := h entries e log rfl
    have happend : Timeline dir ((entries ++ [e]) ++ log) := by simpa using h
    cases e with
    | prompt index chunks => exact ⟨hfits, ih happend fun _ => rfl⟩
    | agent text promptIndex =>
      have hrun := hrunning hfits
      exact ⟨hrun, ih happend fun _ => hrun⟩
    | checkpoint info =>
      refine ⟨hfits, ih happend fun hpos => hrunning ?_⟩
      simpa using hpos
    | rewind markerTarget => exact hfits.elim

theorem finish_standing (entries : List Entry) (running : Bool) :
    (standing dir target entries running).finish target =
      (replayed dir target entries).finish target := by
  unfold standing
  split
  · rfl
  · unfold Branch.finish
    rw [settle_of_none (replayed dir target entries).pending_settle]

/-! ## Where the items come from -/

/-- The text of agent entries. -/
def Answers (entries : List Entry) (text : Text) : Prop :=
  ∃ texts : List Text, text = texts.flatten ∧
    ∀ t ∈ texts, ∃ promptIndex, .agent t promptIndex ∈ entries

def Asks (entries : List Entry) (index : Nat) (text : Text) : Prop :=
  ∃ chunks, .prompt index chunks ∈ entries ∧ text = chunks.flatten

/-- An item is a prompt of the entries, an answer, or from a checkpoint. -/
def Stems (dir : SessionDir) (entries : List Entry) (item : ConversationItem) : Prop :=
  (∃ index text, Asks entries index text ∧ item = userItem index text) ∨
  (∃ text, Answers entries text ∧ item = .ofAssistant text) ∨
  ∃ info, .checkpoint info ∈ entries ∧ item ∈ loadedItems dir (some info)

structure Sourced (dir : SessionDir) (entries : List Entry) (b : Branch) : Prop where
  items : ∀ item ∈ b.conversation, Stems dir entries item
  asks : ∀ index text, b.pending = .user index text → Asks entries index text
  answers : ∀ text, b.pending = .agent text → Answers entries text

theorem Answers.mono (h : Answers entries text) :
    Answers (entries ++ later) text := by
  obtain ⟨texts, htext, hall⟩ := h
  refine ⟨texts, htext, fun t ht => ?_⟩
  obtain ⟨promptIndex, hmem⟩ := hall t ht
  exact ⟨promptIndex, mem_append_left _ hmem⟩

theorem Asks.mono (h : Asks entries index text) :
    Asks (entries ++ later) index text := by
  obtain ⟨chunks, hmem, htext⟩ := h
  exact ⟨chunks, mem_append_left _ hmem, htext⟩
variable {item : ConversationItem}

theorem Stems.mono
    (h : Stems dir entries item) : Stems dir (entries ++ later) item := by
  rcases h with ⟨index, text, hasks, hitem⟩ | ⟨text, hanswers, hitem⟩ | ⟨info, hmem, hitem⟩
  · exact .inl ⟨index, text, hasks.mono, hitem⟩
  · exact .inr (.inl ⟨text, hanswers.mono, hitem⟩)
  · exact .inr (.inr ⟨info, mem_append_left _ hmem, hitem⟩)

theorem Sourced.mono (h : Sourced dir entries b) :
    Sourced dir (entries ++ later) b :=
  ⟨fun item hitem => (h.items item hitem).mono, fun index text hb => (h.asks index text hb).mono,
    fun text hb => (h.answers text hb).mono⟩

theorem Sourced.settle (h : Sourced dir entries b) : Sourced dir entries b.settle := by
  have hnone := b.pending_settle
  refine ⟨fun item hitem => ?_, fun index text hb => ?_, fun text hb => ?_⟩
  · unfold Branch.settle at hitem
    split at hitem
    · exact h.items item hitem
    · rename_i index text hb
      split at hitem
      · exact h.items item hitem
      · rcases mem_append.mp hitem with hitem | hitem
        · exact h.items item hitem
        · exact .inl ⟨index, text, h.asks index text hb, mem_singleton.mp hitem⟩
    · rename_i text hb
      rcases mem_append.mp hitem with hitem | hitem
      · exact h.items item hitem
      · exact .inr (.inl ⟨text, h.answers text hb, mem_singleton.mp hitem⟩)
  · rw [hnone] at hb
    cases hb
  · rw [hnone] at hb
    cases hb

theorem mem_cut (h : item ∈ (b.cut index).conversation) :
    item ∈ b.conversation := by
  unfold Branch.cut at h
  split at h
  · split at h
    · exact mem_of_mem_take h
    · split at h
      · cases h
      · exact mem_of_mem_take h
  · split at h
    · cases h
    · exact mem_of_mem_take h

theorem Sourced.answer (h : Sourced dir entries b) (text : Text) (promptIndex : Option Nat) :
    Sourced dir (entries ++ [.agent text promptIndex]) (b.answer text) := by
  have hmem : .agent text promptIndex ∈ entries ++ [.agent text promptIndex] :=
    mem_append_right _ (.head _)
  unfold Branch.answer
  split
  · rename_i earlier hb
    refine ⟨fun item hitem => (h.items item hitem).mono, fun _ _ hpending => ?_,
      fun text' hpending => ?_⟩
    · cases hpending
    · obtain rfl := Pending.agent.inj hpending
      obtain ⟨texts, rfl, hall⟩ := h.answers earlier hb
      refine ⟨texts ++ [text], by simp, fun t ht => ?_⟩
      rcases mem_append.mp ht with ht | ht
      · obtain ⟨promptIndex', hearlier⟩ := hall t ht
        exact ⟨promptIndex', mem_append_left _ hearlier⟩
      · obtain rfl := mem_singleton.mp ht
        exact ⟨promptIndex, hmem⟩
  · refine ⟨fun item hitem => (h.settle.items item hitem).mono, fun _ _ hpending => ?_,
      fun text' hpending => ?_⟩
    · cases hpending
    · obtain rfl := Pending.agent.inj hpending
      refine ⟨[text], by simp, fun t ht => ?_⟩
      obtain rfl := mem_singleton.mp ht
      exact ⟨promptIndex, hmem⟩

/-- No entry of a timeline puts in what does not come from it. -/
theorem Sourced.step (h : Sourced dir entries b) (hfits : Fits dir entries e) :
    Sourced dir (entries ++ [e]) (b.step dir target e) := by
  have hmem : e ∈ entries ++ [e] := mem_append_right _ (.head _)
  cases e with
  | prompt index chunks =>
    refine ⟨fun item hitem => (h.settle.items item hitem).mono, fun _ _ hpending => ?_,
      fun _ hpending => ?_⟩
    · obtain ⟨rfl, rfl⟩ := Pending.user.inj hpending
      exact ⟨chunks, hmem, rfl⟩
    · cases hpending
  | agent text promptIndex => exact h.answer text promptIndex
  | checkpoint info =>
    by_cases hskip : target < info.promptIndexAtCompaction
    · rw [show b.step dir target (.checkpoint info) = b from if_pos hskip]
      exact h.mono
    · rw [show b.step dir target (.checkpoint info) = .load dir info from if_neg hskip]
      refine ⟨fun item hitem => .inr (.inr ⟨info, hmem, hitem⟩), fun _ _ hpending => ?_,
        fun _ hpending => ?_⟩
      · cases hpending
      · cases hpending
  | rewind markerTarget => exact hfits.elim

theorem Timeline.sourced (h : Timeline dir entries) (target : Nat) :
    Sourced dir entries (replayed dir target entries) := by
  induction entries using List.reverseRecOn with
  | nil =>
    refine ⟨fun item hitem => ?_, fun index text hpending => ?_, fun text hpending => ?_⟩
    · cases hitem
    · cases hpending
    · cases hpending
  | append_singleton earlier e ih =>
    rw [replayed_snoc]
    exact (ih h.append_left).step h.last

theorem Sourced.finish (h : Sourced dir entries b)
    (hitem : item ∈ (b.finish target).conversation) : Stems dir entries item := by
  unfold Branch.finish at hitem
  split at hitem
  · exact h.settle.items item (mem_cut hitem)
  · exact h.settle.items item hitem

/-- The log is replayed as its surviving entries are, and whatever is in the
result comes from these. -/
def ReplaysSurvivors (dir : SessionDir) (entries : List Entry) (target : Nat) : Prop :=
  ∃ result result',
    replayToPrompt dir (.ok (some (logOf entries))) target = .ok result ∧
    replayToPrompt dir (.ok (some (logOf (survivors entries)))) target = .ok result' ∧
    result.conversation = result'.conversation ∧
    result.promptIndexReached = result'.promptIndexReached ∧
    result.lastCompactionPromptIndex = result'.lastCompactionPromptIndex ∧
    ∀ item ∈ result.conversation, Stems dir (survivors entries) item

/-- So it is for every log whose markers are all followed. -/
theorem replaysSurvivors_of_followed (dir : SessionDir) (entries : List Entry) (target : Nat)
    (hlog : Logged dir [] false entries) (hfollows : FollowsAll target [] false entries) :
    ReplaysSurvivors dir entries target := by
  obtain ⟨running', hrun, htimeline⟩ := standing_run Timeline.nil
    (fun hrunning => by cases hrunning) hlog hfollows
  have hempty : Timeline dir ([] ++ survivors entries) := htimeline
  have hlogged : Logged dir [] false (survivors entries) :=
    hempty.logged fun hpos => absurd hpos (Nat.lt_irrefl 0)
  obtain ⟨result, hresult, hconv, hcount, hindex⟩ := replayToPrompt_logOf hlog target
  obtain ⟨result', hresult', hconv', hcount', hindex'⟩ := replayToPrompt_logOf hlogged target
  have hsame : (Branch.new.run dir target entries).finish target =
      (replayed dir target (survivors entries)).finish target := by
    rw [show Branch.new.run dir target entries = standing dir target (survivors entries) running'
      from hrun, finish_standing]
  rw [hsame] at hconv hcount hindex
  refine ⟨result, result', hresult, hresult', hconv.trans hconv'.symm, hcount.trans hcount'.symm,
    hindex.trans hindex'.symm, fun item hitem => ?_⟩
  rw [hconv] at hitem
  exact (htimeline.sourced target).finish hitem

/-! A rewind behind the compaction that was loaded. -/

namespace Compacted

def info (index : Nat) : CheckpointInfo := ⟨index, "compaction.json".toList, none⟩

def session : SessionDir where
  path := "session".toList
  read _ := .file ⟨[.system "rules".toList, .ofUser "summary".toList], 1, none⟩
  isValidDataUriImage _ := false

theorem readable (index : Nat) : Readable session (info index) := ⟨_, rfl, Nat.le_refl 1⟩

/-- The compaction after prompt 1 is discarded with it. -/
def behind : List Entry :=
  [.prompt 0 ["a".toList], .prompt 1 ["b".toList], .checkpoint (info 2), .prompt 2 ["x".toList],
    .rewind 1, .prompt 1 ["c".toList]]

theorem behind_logged : Logged session [] false behind :=
  ⟨⟨rfl, cons_ne_nil _ _⟩, ⟨rfl, cons_ne_nil _ _⟩, ⟨rfl, readable 2⟩,
    ⟨rfl, cons_ne_nil _ _⟩, show 1 < 3 by decide, ⟨rfl, cons_ne_nil _ _⟩, trivial⟩

/-- Only prompt 1 is, here. -/
def after : List Entry :=
  [.prompt 0 ["a".toList], .checkpoint (info 1), .prompt 1 ["b".toList], .agent "y".toList none,
    .rewind 1, .prompt 1 ["c".toList]]

theorem after_logged : Logged session [] false after :=
  ⟨⟨rfl, cons_ne_nil _ _⟩, ⟨rfl, readable 1⟩, ⟨rfl, cons_ne_nil _ _⟩, rfl,
    show 1 < 2 by decide, ⟨rfl, cons_ne_nil _ _⟩, trivial⟩

end Compacted

/-- The summary of what was discarded stays in front, and prompt 0 is lost. -/
theorem compacted_behind :
    ¬ ∀ (dir : SessionDir) (entries : List Entry) (target : Nat), Logged dir [] false entries →
      ReplaysSurvivors dir entries target := by
  intro h
  obtain ⟨result, result', hresult, hresult', hsame, -⟩ :=
    h Compacted.session Compacted.behind 2 Compacted.behind_logged
  have hlength : (replayToPrompt Compacted.session (.ok (some (logOf Compacted.behind))) 2).toOption.map
      (·.conversation.length) = some 3 := by decide
  have hlength' : (replayToPrompt Compacted.session
      (.ok (some (logOf (survivors Compacted.behind)))) 2).toOption.map
      (·.conversation.length) = some 2 := by decide
  rw [hresult] at hlength
  rw [hresult'] at hlength'
  have hthree : result.conversation.length = 3 := some.inj hlength
  have htwo : result'.conversation.length = 2 := some.inj hlength'
  rw [hsame, htwo] at hthree
  cases hthree

theorem replaysSurvivors_of_followed_after :
    ReplaysSurvivors Compacted.session Compacted.after 1 := by
  refine replaysSurvivors_of_followed _ _ _ Compacted.after_logged
    ⟨trivial, trivial, trivial, trivial, .inr (.inl ⟨?_, rfl, ?_⟩), trivial, trivial⟩
  · exact Nat.le_refl 1
  · intro e he
    rcases mem_cons.mp he with rfl | he
    · exact cons_ne_nil _ _
    · obtain rfl := mem_singleton.mp he
      trivial

end GrokBuild.Rewind
