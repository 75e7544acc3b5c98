import GrokBuild.SessionStore.CwdSwitch
import Mathlib.Data.Finset.Card

/-!
# Session storage: how often a directory switch is counted

In every run of the calls each generation gets one item, and the summary reaches
the generation of every call that returned. The item is counted once when the
high-water generation of the summary tells the counted items from the others:
when no item is left uncounted below it, and none is repaired while the call
that appended it has not patched the summary.
-/

namespace GrokBuild.SessionStore

open TextLines Str LineLog ChatHistory Function Guided List

section Run

variable {codec : Codec ConversationItem} {ι : Type} {message : ι → ConversationItem}
  {generation : ι → Nat}

variable (codec message generation) in
/-- Calls with items that carry a generation above 0 and read back. -/
structure SwitchCalls : Prop where
  record : ∀ k, RecordText codec.decode (codec.encode (message k)) (message k)
  generation : ∀ k, switchGeneration (message k) = some (generation k)

/-! ## One item for each generation -/

variable (codec generation) in
/-- What every run keeps. -/
structure Recorded (s : SwitchState ι) : Prop where
  once : ∀ k, (switchesIn codec s.chat).count (generation k) ≤ 1
  onDisk : ∀ k, s.progress k ≠ .waiting → generation k ∈ switchesIn codec s.chat
  owner : ∀ j k, s.progress j = .holding .appended → s.progress k = .holding .appended →
    generation j = generation k → j = k
  raised : ∀ k d, s.progress k = .returned d →
    generation k ≤ s.summary.cwdSwitchBookkeepingGeneration

variable {g : Nat}

theorem count_append_fresh {l : List Nat} (hfresh : g ∉ l) {n : Nat} (h : l.count n ≤ 1) :
    (l ++ [g]).count n ≤ 1 := by
  rw [List.count_append, count_singleton]
  by_cases hg : g = n
  · subst hg
    simp [List.count_eq_zero.mpr hfresh]
  · simpa [hg] using h

variable {s : SwitchState ι} {k : ι}

theorem Recorded.extend (h : Recorded codec generation s) {chat : Bytes}
    (hfresh : generation k ∉ switchesIn codec s.chat)
    (hnew : switchesIn codec chat = switchesIn codec s.chat ++ [generation k]) :
    Recorded codec generation { s with chat } where
  once j := by
    rw [hnew]
    exact count_append_fresh hfresh (h.once j)
  onDisk j hj := by
    rw [hnew]
    exact mem_append_left _ (h.onDisk j hj)
  owner := h.owner
  raised := h.raised

theorem Recorded.raise (h : Recorded codec generation s) {summary : Summary}
    (hgrow : s.summary.cwdSwitchBookkeepingGeneration ≤ summary.cwdSwitchBookkeepingGeneration) :
    Recorded codec generation { s with summary } where
  once := h.once
  onDisk := h.onDisk
  owner := h.owner
  raised k d hk := (h.raised k d hk).trans hgrow

/-! ## The count -/

variable (generation) in
/-- A call has appended the item of a generation and not patched the summary. -/
def Held (progress : ι → Progress) (g : Nat) : Prop :=
  ∃ k, generation k = g ∧ progress k = .holding .appended

variable (codec generation) in
/-- The item of a generation is in the history, no call holds it, and the
summary has reached the generation. -/
@[mk_iff]
structure Counted (s : SwitchState ι) (g : Nat) : Prop where
  onDisk : g ∈ switchesIn codec s.chat
  free : ¬ Held generation s.progress g
  reached : g ≤ s.summary.cwdSwitchBookkeepingGeneration

variable {s' : SwitchState ι}

theorem counted_congr (hdisk : g ∈ switchesIn codec s'.chat ↔ g ∈ switchesIn codec s.chat)
    (hheld : Held generation s'.progress g ↔ Held generation s.progress g)
    (hreached : g ∈ switchesIn codec s.chat → ¬ Held generation s.progress g → (g ≤ s'.summary.cwdSwitchBookkeepingGeneration ↔ g ≤ s.summary.cwdSwitchBookkeepingGeneration)) :
    Counted codec generation s' g ↔ Counted codec generation s g := by
  rw [counted_iff, counted_iff, hdisk, hheld]
  exact and_congr_right fun hd => and_congr_right fun hh => hreached hd hh

section Counting

variable [Fintype ι]

instance (progress : ι → Progress) : DecidablePred (Held generation progress) := fun g =>
  inferInstanceAs (Decidable (∃ k, generation k = g ∧ progress k = .holding .appended))

instance (s : SwitchState ι) : DecidablePred (Counted codec generation s) := fun g =>
  decidable_of_iff' _ (counted_iff codec generation s g)

variable (generation) in
/-- The generations that are called. -/
def called : Finset Nat := Finset.univ.image generation

variable (codec generation) in
def counted (s : SwitchState ι) : Finset Nat := (called generation).filter (Counted codec generation s)

variable (codec generation) in
/-- The summary has counted the items on top of `n` others. -/
def Tally (n : Nat) (s : SwitchState ι) : Prop :=
  s.summary.numChatMessages.val = n + (counted codec generation s).card

variable {s s' : SwitchState ι}

theorem counted_same
    (h : ∀ j, Counted codec generation s' (generation j) ↔ Counted codec generation s (generation j)) :
    counted codec generation s' = counted codec generation s := by
  refine Finset.filter_congr fun g hg => ?_
  obtain ⟨j, -, rfl⟩ := Finset.mem_image.mp hg
  exact h j

theorem counted_insert {k : ι} (hold : ¬ Counted codec generation s (generation k))
    (hnew : Counted codec generation s' (generation k))
    (h : ∀ j, generation j ≠ generation k → (Counted codec generation s' (generation j) ↔ Counted codec generation s (generation j))) :
    (counted codec generation s').card = (counted codec generation s).card + 1 := by
  have hfresh : generation k ∉ counted codec generation s := fun hk => hold (Finset.mem_filter.mp hk).2
  have hinsert : counted codec generation s' = insert (generation k) (counted codec generation s) := by
    ext g
    rw [Finset.mem_insert, counted, counted, Finset.mem_filter, Finset.mem_filter]
    constructor
    · rintro ⟨hg, hcounted⟩
      by_cases hgk : g = generation k
      · exact Or.inl hgk
      · obtain ⟨j, -, rfl⟩ := Finset.mem_image.mp hg
        exact Or.inr ⟨hg, (h j hgk).mp hcounted⟩
    · rintro (rfl | ⟨hg, hcounted⟩)
      · exact ⟨Finset.mem_image_of_mem _ (Finset.mem_univ k), hnew⟩
      · obtain ⟨j, -, rfl⟩ := Finset.mem_image.mp hg
        refine ⟨hg, (h j fun hjk => hold ?_).mpr hcounted⟩
        rw [← hjk]
        exact hcounted
  rw [hinsert, Finset.card_insert_of_notMem hfresh]

theorem tally_same {n : Nat} (htally : Tally codec generation n s)
    (hcount : s'.summary.numChatMessages = s.summary.numChatMessages)
    (h : ∀ j, Counted codec generation s' (generation j) ↔ Counted codec generation s (generation j)) :
    Tally codec generation n s' := by
  rw [Tally, hcount, counted_same h]
  exact htally

theorem tally_insert {n : Nat} {k : ι} (hroom : n + (called generation).card ≤ usizeMax)
    (htally : Tally codec generation n s)
    (hcount : s'.summary.numChatMessages = s.summary.numChatMessages.saturatingAdd ⟨1, by decide⟩)
    (hold : ¬ Counted codec generation s (generation k))
    (hnew : Counted codec generation s' (generation k))
    (h : ∀ j, generation j ≠ generation k → (Counted codec generation s' (generation j) ↔ Counted codec generation s (generation j))) :
    Tally codec generation n s' := by
  have hcard := counted_insert hold hnew h
  have hle : (counted codec generation s').card ≤ (called generation).card :=
    Finset.card_le_card (Finset.filter_subset _ _)
  have hadd : (s.summary.numChatMessages.saturatingAdd ⟨1, by decide⟩).val =
      s.summary.numChatMessages.val + 1 := by
    show min (s.summary.numChatMessages.val + 1) usizeMax = _
    rw [htally]
    omega
  rw [Tally, hcount, hadd, htally]
  omega

end Counting

/-! ## Moves of one call -/

variable [DecidableEq ι] {v : Progress}

theorem update_eq_cases {p : ι → Progress} {j : ι} {w : Progress} (h : update p k v j = w) :
    j = k ∧ v = w ∨ j ≠ k ∧ p j = w := by
  by_cases hj : j = k
  · subst hj
    exact Or.inl ⟨rfl, by simpa using h⟩
  · exact Or.inr ⟨hj, by simpa [hj] using h⟩

/-- A call moves on and leaves the files. -/
theorem Recorded.move (h : Recorded codec generation s)
    (hdisk : v ≠ .waiting → generation k ∈ switchesIn codec s.chat) (howner : v ≠ .holding .appended)
    (hraised : ∀ d, v = .returned d → generation k ≤ s.summary.cwdSwitchBookkeepingGeneration) :
    Recorded codec generation { s with progress := update s.progress k v } where
  once := h.once
  onDisk j hj := by
    rcases update_eq_cases (Eq.refl (update s.progress k v j)) with ⟨rfl, hv⟩ | ⟨-, hv⟩
    · exact hdisk (hv ▸ hj)
    · exact h.onDisk j (hv ▸ hj)
  owner i j hi hj heq := by
    rcases update_eq_cases hi with ⟨-, hv⟩ | ⟨-, hi⟩
    · exact absurd hv howner
    · rcases update_eq_cases hj with ⟨-, hv⟩ | ⟨-, hj⟩
      · exact absurd hv howner
      · exact h.owner i j hi hj heq
  raised j d hj := by
    rcases update_eq_cases hj with ⟨rfl, hv⟩ | ⟨-, hj⟩
    · exact hraised d hv
    · exact h.raised j d hj

theorem Recorded.hold (h : Recorded codec generation s)
    (hdisk : generation k ∈ switchesIn codec s.chat)
    (halone : ∀ j, s.progress j = .holding .appended → generation j ≠ generation k) :
    Recorded codec generation
      { s with progress := update s.progress k (.holding .appended) } where
  once := h.once
  onDisk j hj := by
    rcases update_eq_cases (Eq.refl (update s.progress k (.holding .appended) j)) with
      ⟨rfl, -⟩ | ⟨-, hv⟩
    · exact hdisk
    · exact h.onDisk j (hv ▸ hj)
  owner i j hi hj heq := by
    rcases update_eq_cases hi with ⟨hik, -⟩ | ⟨-, hi⟩
    · rcases update_eq_cases hj with ⟨hjk, -⟩ | ⟨-, hj⟩
      · exact hik.trans hjk.symm
      · exact absurd (heq.symm.trans (congrArg generation hik)) (halone j hj)
    · rcases update_eq_cases hj with ⟨hjk, -⟩ | ⟨-, hj⟩
      · exact absurd (heq.trans (congrArg generation hjk)) (halone i hi)
      · exact h.owner i j hi hj heq
  raised j d hj := by
    rcases update_eq_cases hj with ⟨-, hv⟩ | ⟨-, hj⟩
    · exact absurd hv (by simp)
    · exact h.raised j d hj

/-! ## What a step does -/

variable (codec message) in
/-- The record gets into the file, and the call does not learn of it. -/
def Lost (s : SwitchState ι) (k : ι) : AppendFault → Prop
  | .stopped written => (codec.encode (message k)).length ≤ reached s.chat written
  | .unsynced => True
  | .refused | .none => False

instance (s : SwitchState ι) (k : ι) : DecidablePred (Lost codec message s k)
  | .stopped _ => inferInstanceAs (Decidable (_ ≤ _))
  | .unsynced => inferInstanceAs (Decidable True)
  | .refused | .none => inferInstanceAs (Decidable False)

variable (codec message generation) in
/-- The states behind a step. -/
inductive Effect (s : SwitchState ι) : SwitchEvent ι → SwitchState ι → Prop
  | idle (e : SwitchEvent ι) : Effect s e s
  | found {k fault item} (hwaiting : s.progress k = .waiting)
      (hfound : generation k ∈ switchesIn codec s.chat) :
      Effect s (.append k fault)
        { s with progress := update s.progress k (.holding (.alreadyPresent item)) }
  | torn {k fault chat} (hsame : switchesIn codec chat = switchesIn codec s.chat) :
      Effect s (.append k fault) { s with chat }
  | lost {k fault chat} (hwaiting : s.progress k = .waiting)
      (hfresh : generation k ∉ switchesIn codec s.chat)
      (hnew : switchesIn codec chat = switchesIn codec s.chat ++ [generation k])
      (hlost : Lost codec message s k fault) : Effect s (.append k fault) { s with chat }
  | added {k fault chat} (hwaiting : s.progress k = .waiting)
      (hfresh : generation k ∉ switchesIn codec s.chat)
      (hnew : switchesIn codec chat = switchesIn codec s.chat ++ [generation k]) :
      Effect s (.append k fault)
        { s with chat, progress := update s.progress k (.holding .appended) }
  | failed {k now fault synced disposition} (hholding : s.progress k = .holding disposition)
      (hfault : fault ≠ .none) :
      Effect s (.patch k now fault synced) { s with progress := update s.progress k .waiting }
  | patched {k now synced disposition next} (hholding : s.progress k = .holding disposition)
      (hnext : next = .waiting ∨ next = .returned disposition) :
      Effect s (.patch k now .none synced)
        { s with
          summary := (s.summary.applyPatch (switchPatch disposition (some (generation k))) now).1
          progress := update s.progress k next }

theorem effect_append (h : SwitchCalls codec message generation) (s : SwitchState ι) (k : ι)
    (fault : AppendFault) :
    Effect codec message generation s (.append k fault)
      (s.step codec message (.append k fault)) := by
  have hstay : s.progress k = .waiting → update s.progress k .waiting = s.progress :=
    fun hwaiting => update_eq_self_iff.mpr hwaiting.symm
  cases hwaiting : s.progress k with
  | holding d | returned d =>
    have hidle : s.step codec message (.append k fault) = s := by
      simp only [SwitchState.step, hwaiting]
    rw [hidle]
    exact .idle _
  | waiting =>
    simp only [SwitchState.step, hwaiting, appendCwdSwitch, h.generation k, appendCwdSwitchLine]
    split
    · rw [afterAppend, hstay hwaiting]
      exact .idle _
    · cases hfind : findCwdSwitchGeneration codec s.chat (generation k) with
      | some item =>
        refine .found hwaiting (findCwdSwitchGeneration_isSome.mp ?_)
        rw [hfind]
        rfl
      | none =>
        have hfresh : generation k ∉ switchesIn codec s.chat := by
          intro hmem
          have hsome := findCwdSwitchGeneration_isSome.mpr hmem
          rw [hfind] at hsome
          exact absurd hsome (by simp)
        have hswitches := switchesIn_append (h.record k) (h.generation k) s.chat
        have hline := reached_line s.chat (codec.encode (message k))
        cases fault with
        | refused => contradiction
        | stopped written =>
          simp only [afterAppend, hstay hwaiting]
          by_cases hwhole : (codec.encode (message k)).length ≤ reached s.chat written
          · refine .lost hwaiting hfresh ?_ hwhole
            rw [hswitches, if_pos hwhole]
          · refine .torn ?_
            rw [hswitches, if_neg hwhole, append_nil]
        | unsynced =>
          simp only [afterAppend, hstay hwaiting]
          refine .lost hwaiting hfresh ?_ trivial
          rw [hswitches, if_pos hline]
        | none =>
          refine .added hwaiting hfresh ?_
          rw [hswitches, if_pos hline]

theorem effect_patch (h : SwitchCalls codec message generation) (s : SwitchState ι) (k : ι)
    (now : DateTime) (fault : Fault) (synced : Bool) :
    Effect codec message generation s (.patch k now fault synced)
      (s.step codec message (.patch k now fault synced)) := by
  cases hholding : s.progress k with
  | waiting | returned d =>
    have hidle : s.step codec message (.patch k now fault synced) = s := by
      simp only [SwitchState.step, hholding]
    rw [hidle]
    exact .idle _
  | holding d =>
    simp only [SwitchState.step, hholding, bookkeep, h.generation k]
    split
    · next hfault =>
      subst hfault
      refine .patched hholding ?_
      cases synced
      · exact Or.inl rfl
      · exact Or.inr rfl
    · next hfault => exact .failed hholding hfault

theorem effect_step (h : SwitchCalls codec message generation) (s : SwitchState ι)
    (e : SwitchEvent ι) : Effect codec message generation s e (s.step codec message e) := by
  cases e with
  | append k fault => exact effect_append h s k fault
  | patch k now fault synced => exact effect_patch h s k now fault synced

theorem switchPatch_generation (s : Summary) (d : StrictAppendAck) (g : Nat) (now : DateTime) :
    (s.applyPatch (switchPatch d (some g)) now).1.cwdSwitchBookkeepingGeneration =
      max s.cwdSwitchBookkeepingGeneration g :=
  s.applyPatch_generation_max _ now

theorem Recorded.step {e : SwitchEvent ι} (h : Recorded codec generation s)
    (he : Effect codec message generation s e s') : Recorded codec generation s' := by
  cases he with
  | idle => exact h
  | found hwaiting hfound => exact h.move (fun _ => hfound) (by simp) (by simp)
  | torn hsame =>
    refine ⟨fun k => ?_, fun k hk => ?_, h.owner, h.raised⟩
    · rw [hsame]
      exact h.once k
    · rw [hsame]
      exact h.onDisk k hk
  | lost hwaiting hfresh hnew hlost => exact h.extend hfresh hnew
  | @added k fault chat hwaiting hfresh hnew =>
    have hdisk : generation k ∈ switchesIn codec chat := by
      rw [hnew]
      exact mem_append_right _ (mem_singleton_self _)
    refine (h.extend hfresh hnew).hold hdisk fun j hj heq => ?_
    have hheld := h.onDisk j (by rw [hj]; simp)
    exact hfresh (heq ▸ hheld)
  | failed hholding hfault => exact h.move (by simp) (by simp) (by simp)
  | @patched k now synced d next hholding hnext =>
    have hmax := switchPatch_generation s.summary d (generation k) now
    have hgrow := (le_max_left _ _).trans_eq hmax.symm
    have hreach := (le_max_right _ _).trans_eq hmax.symm
    have hdisk := h.onDisk k (by rw [hholding]; simp)
    refine (h.raise hgrow).move (fun _ => hdisk) ?_ fun _ _ => hreach
    rcases hnext with rfl | rfl <;> simp

theorem held_update {progress : ι → Progress}
    (h : generation k = g → progress k ≠ .holding .appended ∧ v ≠ .holding .appended) :
    Held generation (update progress k v) g ↔ Held generation progress g := by
  constructor
  · rintro ⟨j, rfl, hj⟩
    rcases update_eq_cases hj with ⟨rfl, hv⟩ | ⟨-, hj⟩
    · exact absurd hv (h rfl).2
    · exact ⟨j, rfl, hj⟩
  · rintro ⟨j, rfl, hj⟩
    by_cases hjk : j = k
    · subst hjk
      exact absurd hj (h rfl).1
    · exact ⟨j, rfl, by rw [update_of_ne hjk]; exact hj⟩

theorem not_held_update (h : Recorded codec generation s) (hk : s.progress k = .holding .appended)
    (hv : v ≠ .holding .appended) : ¬ Held generation (update s.progress k v) (generation k) := by
  rintro ⟨j, heq, hj⟩
  rcases update_eq_cases hj with ⟨-, hv'⟩ | ⟨hne, hj⟩
  · exact hv hv'
  · exact hne (h.owner j k hj hk heq)

/-! ## Careful steps -/

variable (codec message generation) in
/-- A step behind which the generation of the summary still tells the counted
items from the others. -/
def Careful (s : SwitchState ι) : SwitchEvent ι → Prop
  | .append k fault =>
    s.progress k = .waiting → generation k ∉ switchesIn codec s.chat →
      Lost codec message s k fault → s.summary.cwdSwitchBookkeepingGeneration < generation k
  | .patch k _ fault _ => ∀ d, s.progress k = .holding d →
    if fault = .none then
      (∀ j, generation j ∈ switchesIn codec s.chat →
        s.summary.cwdSwitchBookkeepingGeneration < generation j → generation j < generation k →
          Held generation s.progress (generation j)) ∧
      (d ≠ .appended → s.summary.cwdSwitchBookkeepingGeneration < generation k →
        ¬ Held generation s.progress (generation k))
    else d = .appended → s.summary.cwdSwitchBookkeepingGeneration < generation k

instance (progress : Progress) (P : StrictAppendAck → Prop) [DecidablePred P] :
    Decidable (∀ d, progress = .holding d → P d) :=
  match progress with
  | .waiting | .returned _ => .isTrue (by simp)
  | .holding d => decidable_of_iff (P d) (by simp)

theorem switchPatch_numChatMessages (s : Summary) (d : StrictAppendAck) (g : Nat) (now : DateTime) :
    (s.applyPatch (switchPatch d (some g)) now).1.numChatMessages =
      if d = .appended ∨ s.cwdSwitchBookkeepingGeneration < g then
        s.numChatMessages.saturatingAdd ⟨1, by decide⟩
      else s.numChatMessages := by
  rw [Summary.applyPatch_numChatMessages_raise]
  by_cases hd : d = .appended
  · subst hd
    rw [if_neg (by simp [switchPatch]), if_pos (Or.inl rfl)]
    rfl
  · by_cases hg : s.cwdSwitchBookkeepingGeneration < g <;>
      simp [switchPatch, hd, hg, Summary.raises, Summary.countWith]

variable [Fintype ι]

instance (s : SwitchState ι) : DecidablePred (Careful codec message generation s)
  | .append _ _ => inferInstanceAs (Decidable (_ → _ → _ → _))
  | .patch _ _ _ _ => inferInstanceAs (Decidable (∀ d, _ = Progress.holding d → _))

theorem Tally.step {n : Nat} {e : SwitchEvent ι} (hroom : n + (called generation).card ≤ usizeMax)
    (h : Recorded codec generation s) (htally : Tally codec generation n s)
    (hcareful : Careful codec message generation s e) (he : Effect codec message generation s e s') :
    Tally codec generation n s' := by
  cases he with
  | idle => exact htally
  | @found k fault item hwaiting hfound =>
    refine tally_same htally rfl fun j => counted_congr Iff.rfl (held_update fun _ => ?_) ?_
    · exact ⟨by simp [hwaiting], by simp⟩
    · exact fun _ _ => Iff.rfl
  | torn hsame =>
    refine tally_same htally rfl fun j => counted_congr ?_ Iff.rfl fun _ _ => Iff.rfl
    rw [hsame]
  | @lost k fault chat hwaiting hfresh hnew hlost =>
    -- the item that is lost on its call waits above the generation for its repair
    have habove := hcareful hwaiting hfresh hlost
    refine tally_same htally rfl fun j => ?_
    by_cases hj : generation j = generation k
    · refine iff_of_false (fun h => ?_) (fun h => ?_)
      · exact absurd (hj ▸ h.reached) (not_le.mpr habove)
      · exact absurd (hj ▸ h.onDisk) hfresh
    · refine counted_congr ?_ Iff.rfl fun _ _ => Iff.rfl
      simp [hnew, hj]
  | @added k fault chat hwaiting hfresh hnew =>
    refine tally_same htally rfl fun j => ?_
    by_cases hj : generation j = generation k
    · refine iff_of_false (fun h => h.free ⟨k, hj.symm, update_self _ _ _⟩) (fun h => ?_)
      exact absurd (hj ▸ h.onDisk) hfresh
    · refine counted_congr ?_ (held_update fun hk => absurd hk.symm hj) fun _ _ => Iff.rfl
      simp [hnew, hj]
  | @failed k now fault synced d hholding hfault =>
    have habove := hcareful d hholding
    rw [if_neg hfault] at habove
    refine tally_same htally rfl fun j => ?_
    by_cases hd : d = .appended
    · by_cases hj : generation j = generation k
      · refine iff_of_false (fun h => ?_) (fun h => ?_)
        · exact absurd (hj ▸ h.reached) (not_le.mpr (habove hd))
        · exact h.free ⟨k, hj.symm, hd ▸ hholding⟩
      · exact counted_congr Iff.rfl (held_update fun hk => absurd hk.symm hj) fun _ _ => Iff.rfl
    · refine counted_congr Iff.rfl (held_update fun _ => ?_) fun _ _ => Iff.rfl
      exact ⟨by simpa [hholding] using hd, by simp⟩
  | @patched k now synced d next hholding hnext =>
    have hlet : next ≠ .holding .appended := by rcases hnext with rfl | rfl <;> simp
    obtain ⟨hpassed, hrepair⟩ := hcareful d hholding
    have hmax := switchPatch_generation s.summary d (generation k) now
    have hcount := switchPatch_numChatMessages s.summary d (generation k) now
    have hdisk := h.onDisk k (by rw [hholding]; simp)
    have hother : ∀ j, generation j ≠ generation k → (Counted codec generation
        { s with
          summary := (s.summary.applyPatch (switchPatch d (some (generation k))) now).1
          progress := update s.progress k next } (generation j) ↔
        Counted codec generation s (generation j)) := by
      intro j hj
      refine counted_congr Iff.rfl (held_update fun hk => absurd hk.symm hj) fun honDisk hfree => ?_
      rw [hmax]
      refine ⟨fun hle => ?_, fun hle => hle.trans (le_max_left _ _)⟩
      by_contra hlt
      have hbelow : generation j < generation k := by omega
      exact hfree (hpassed j honDisk (not_le.mp hlt) hbelow)
    have hreach := (le_max_right _ _).trans_eq hmax.symm
    by_cases hd : d = .appended
    · rw [if_pos (Or.inl hd)] at hcount
      subst hd
      refine tally_insert hroom htally hcount (fun hc => hc.free ⟨k, rfl, hholding⟩) ?_ hother
      exact ⟨hdisk, not_held_update h hholding hlet, hreach⟩
    · have hheld : Held generation (update s.progress k next) (generation k) ↔
          Held generation s.progress (generation k) :=
        held_update fun _ => ⟨by simpa [hholding] using hd, hlet⟩
      by_cases habove : s.summary.cwdSwitchBookkeepingGeneration < generation k
      · rw [if_pos (Or.inr habove)] at hcount
        refine tally_insert hroom htally hcount (fun hc => not_le.mpr habove hc.reached) ?_ hother
        exact ⟨hdisk, fun hk => hrepair hd habove (hheld.mp hk), hreach⟩
      · rw [if_neg (by tauto)] at hcount
        refine tally_same htally hcount fun j => ?_
        by_cases hj : generation j = generation k
        · rw [hj]
          refine counted_congr Iff.rfl hheld fun _ _ => iff_of_true hreach (not_lt.mp habove)
        · exact hother j hj

end Run

/-! ## Runs -/

section Ends

variable {codec : Codec ConversationItem} {ι : Type} {message : ι → ConversationItem}
  {generation : ι → Nat}

variable (codec generation) in
/-- No call has begun, and no item of a called generation is in the history. -/
structure Fresh (s : SwitchState ι) : Prop where
  waiting : ∀ k, s.progress k = .waiting
  absent : ∀ k, generation k ∉ switchesIn codec s.chat

/-- Every call has returned `Ok`. -/
def AllReturned (s : SwitchState ι) : Prop := ∀ k, ∃ d, s.progress k = .returned d

variable (codec generation) in
/-- Once every call has returned, each generation has one item, and the summary
has reached it. -/
def OneItemEach (s : SwitchState ι) : Prop :=
  AllReturned s → ∀ k, (switchesIn codec s.chat).count (generation k) = 1 ∧
    generation k ≤ s.summary.cwdSwitchBookkeepingGeneration

variable {s : SwitchState ι}

theorem Fresh.recorded (h : Fresh codec generation s) : Recorded codec generation s where
  once k := (List.count_eq_zero.mpr (h.absent k)).trans_le (Nat.zero_le 1)
  onDisk k hk := absurd (h.waiting k) hk
  owner j k hj := by simp [h.waiting j] at hj
  raised k d hk := by simp [h.waiting k] at hk

theorem Recorded.returned (h : Recorded codec generation s) (hall : AllReturned s) (k : ι) :
    generation k ∈ switchesIn codec s.chat ∧
      generation k ≤ s.summary.cwdSwitchBookkeepingGeneration := by
  obtain ⟨d, hd⟩ := hall k
  exact ⟨h.onDisk k (by simp [hd]), h.raised k d hd⟩

theorem Recorded.oneItemEach (h : Recorded codec generation s) : OneItemEach codec generation s := by
  intro hall k
  obtain ⟨hdisk, hraised⟩ := h.returned hall k
  exact ⟨le_antisymm (h.once k) (count_pos_iff.mpr hdisk), hraised⟩

variable [Fintype ι]

variable (generation) in
/-- Once every call has returned, the summary has counted each generation once
on top of `n` other messages. -/
def CountedOnce (n : Nat) (s : SwitchState ι) : Prop :=
  AllReturned s → s.summary.numChatMessages.val = n + (called generation).card

theorem Fresh.tally (h : Fresh codec generation s) :
    Tally codec generation s.summary.numChatMessages.val s := by
  have hnone : counted codec generation s = ∅ := by
    refine Finset.filter_eq_empty_iff.mpr fun g hg hc => ?_
    obtain ⟨k, -, rfl⟩ := Finset.mem_image.mp hg
    exact h.absent k hc.onDisk
  rw [Tally, hnone]
  rfl

theorem Tally.countedOnce {n : Nat} (htally : Tally codec generation n s)
    (h : Recorded codec generation s) : CountedOnce generation n s := by
  intro hall
  have hevery : counted codec generation s = called generation := by
    refine Finset.filter_true_of_mem fun g hg => ?_
    obtain ⟨k, -, rfl⟩ := Finset.mem_image.mp hg
    obtain ⟨hdisk, hraised⟩ := h.returned hall k
    refine ⟨hdisk, ?_, hraised⟩
    rintro ⟨j, -, hj⟩
    obtain ⟨d, hd⟩ := hall j
    simp [hd] at hj
  rw [htally, hevery]

variable [DecidableEq ι]

/-- Every run of the calls leaves one item for each generation. A run of
careful steps has counted each of them once. -/
theorem switches_recorded (h : SwitchCalls codec message generation) {s : SwitchState ι}
    (hfresh : Fresh codec generation s) (events : List (SwitchEvent ι)) :
    Throughout (SwitchState.step codec message) (OneItemEach codec generation) s events ∧
      (s.summary.numChatMessages.val + (called generation).card ≤ usizeMax →
        EachStep (SwitchState.step codec message) (Careful codec message generation) s events →
        Throughout (SwitchState.step codec message)
          (CountedOnce generation s.summary.numChatMessages.val) s events) := by
  have hrecorded : Throughout (SwitchState.step codec message) (Recorded codec generation) s events :=
    throughout_of_step hfresh.recorded fun s e hs => hs.step (effect_step h s e)
  refine ⟨fun past hpast => (hrecorded past hpast).oneItemEach, fun hroom hcareful => ?_⟩
  have htally : Throughout (SwitchState.step codec message)
      (fun t => Recorded codec generation t ∧
        Tally codec generation s.summary.numChatMessages.val t) s events := by
    refine throughout_of_eachStep ⟨hfresh.recorded, hfresh.tally⟩ ?_ hcareful
    intro t e ht hc
    exact ⟨ht.1.step (effect_step h t e), ht.2.step hroom ht.1 hc (effect_step h t e)⟩
  intro past hpast
  obtain ⟨hkept, hcounts⟩ := htally past hpast
  exact hcounts.countedOnce hkept

end Ends

/-! ## Two calls -/

/-- The item of a switch as `to_vec` writes it, for generations of one digit. -/
def switchText (generation : Char) : Bytes :=
  utf8Bytes ("\x7b\"type\":\"user\",\"content\":[\x7b\"type\":\"text\",\"text\":\"m\"\x7d],".toList ++
    "\"synthetic_reason\":\"working_directory_switch\",\"cwd_generation\":".toList ++
    [generation] ++ "\x7d".toList)

def switchItem (generation : Nat) : ConversationItem := .workingDirectorySwitch "m".toList generation

def encodeSwitch (item : ConversationItem) : Bytes :=
  if item = switchItem 1 then switchText '1' else switchText '2'

def decodeSwitch (line : Bytes) : Option ConversationItem :=
  if line = switchText '1' then some (switchItem 1)
  else if line = switchText '2' then some (switchItem 2)
  else none

/-- The codec on the switches of generations 1 and 2. -/
def switchCodec : Codec ConversationItem := ⟨encodeSwitch, decodeSwitch⟩

def newSession (ι : Type) : SwitchState ι := ⟨[], newSummary, fun _ => .waiting⟩

/-- A call repairs the item of another that has not counted it yet. -/
def repairedEarly : List (SwitchEvent (Fin 2)) :=
  [.append 0 .none, .append 1 .none, .patch 1 oneSecond .none true, .patch 0 oneSecond .none true]

/-- The patch of generation 1 fails, and generation 2 passes over it. -/
def passedOver : List (SwitchEvent (Fin 2)) :=
  [.append 0 .none, .patch 0 oneSecond .write true, .append 1 .none, .patch 1 oneSecond .none true,
    .append 0 .none, .patch 0 oneSecond .none true]

def runSwitches (message : Fin 2 → ConversationItem) (events : List (SwitchEvent (Fin 2))) :
    SwitchState (Fin 2) :=
  events.foldl (SwitchState.step switchCodec message) (newSession (Fin 2))

/-- One generation is counted twice, and one of two is not counted. -/
theorem switch_miscounted :
    (runSwitches (fun _ => switchItem 1) repairedEarly).progress 0 = .returned .appended ∧
      (runSwitches (fun _ => switchItem 1) repairedEarly).progress 1 =
        .returned (.alreadyPresent (switchItem 1)) ∧
      (runSwitches (fun _ => switchItem 1) repairedEarly).summary.numChatMessages.val = 2 ∧
      (runSwitches (fun k => switchItem (k + 1)) passedOver).progress 0 =
        .returned (.alreadyPresent (switchItem 1)) ∧
      (runSwitches (fun k => switchItem (k + 1)) passedOver).progress 1 = .returned .appended ∧
      (runSwitches (fun k => switchItem (k + 1)) passedOver).summary.numChatMessages.val = 1 := by
  decide +kernel

theorem switchText_record (k : Fin 2) :
    RecordText switchCodec.decode (switchCodec.encode (switchItem (k + 1))) (switchItem (k + 1)) := by
  have hsecond : switchText '2' ≠ switchText '1' := by decide
  have hlength : (switchText '2').length = (switchText '1').length := by
    decide +kernel
  -- the two records have one length, so neither begins the other
  have hone : ∀ p, p <+: switchText '1' → p ≠ switchText '1' → decodeSwitch p = none := by
    intro p hp hne
    have hne' : p ≠ switchText '2' := by
      rintro rfl
      exact hne (hp.eq_of_length hlength)
    rw [decodeSwitch, if_neg hne, if_neg hne']
  have htwo : ∀ p, p <+: switchText '2' → p ≠ switchText '2' → decodeSwitch p = none := by
    intro p hp hne
    have hne' : p ≠ switchText '1' := by
      rintro rfl
      exact hne (hp.eq_of_length hlength.symm)
    rw [decodeSwitch, if_neg hne', if_neg hne]
  fin_cases k
  · have hencode : encodeSwitch (switchItem 1) = switchText '1' := by rw [encodeSwitch, if_pos rfl]
    show RecordText decodeSwitch (encodeSwitch (switchItem 1)) (switchItem 1)
    rw [hencode]
    refine ⟨⟨by decide, by decide⟩, by decide, ?_, hone⟩
    rw [decodeSwitch, if_pos rfl]
  · have hencode : encodeSwitch (switchItem 2) = switchText '2' := by
      rw [encodeSwitch, if_neg (by decide)]
    show RecordText decodeSwitch (encodeSwitch (switchItem 2)) (switchItem 2)
    rw [hencode]
    refine ⟨⟨by decide, by decide⟩, by decide, ?_, htwo⟩
    rw [decodeSwitch, if_neg hsecond, if_pos rfl]

/-- The patch of generation 1 fails and is retried before generation 2 comes. -/
def retriedFirst : List (SwitchEvent (Fin 2)) :=
  [.append 0 .none, .patch 0 oneSecond .write true, .append 0 .none, .patch 0 oneSecond .none true,
    .append 1 .none, .patch 1 oneSecond .none true]

theorem switches_recorded_retriedFirst :
    AllReturned (runSwitches (fun k : Fin 2 => switchItem (k + 1)) retriedFirst) ∧
      Throughout (SwitchState.step switchCodec fun k : Fin 2 => switchItem (k + 1))
        (OneItemEach switchCodec fun k : Fin 2 => k + 1) (newSession (Fin 2)) retriedFirst ∧
      Throughout (SwitchState.step switchCodec fun k : Fin 2 => switchItem (k + 1))
        (CountedOnce (fun k : Fin 2 => k + 1) (newSession (Fin 2)).summary.numChatMessages.val)
        (newSession (Fin 2)) retriedFirst := by
  have hcalls : SwitchCalls switchCodec (fun k : Fin 2 => switchItem (k + 1)) fun k => k + 1 :=
    ⟨switchText_record, by decide⟩
  have hfresh : Fresh switchCodec (fun k : Fin 2 => k + 1) (newSession (Fin 2)) :=
    ⟨fun _ => rfl, fun _ => not_mem_nil⟩
  have hall : AllReturned (runSwitches (fun k : Fin 2 => switchItem (k + 1)) retriedFirst) := by
    intro k
    fin_cases k
    · exact ⟨.alreadyPresent (switchItem 1), by decide +kernel⟩
    · exact ⟨.appended, by decide +kernel⟩
  have hcareful : EachStep (SwitchState.step switchCodec fun k : Fin 2 => switchItem (k + 1))
      (Careful switchCodec (fun k : Fin 2 => switchItem (k + 1)) fun k : Fin 2 => k + 1)
      (newSession (Fin 2)) retriedFirst := by
    decide +kernel
  have h := switches_recorded hcalls hfresh retriedFirst
  exact ⟨hall, h.1, h.2 (by decide) hcareful⟩

end GrokBuild.SessionStore
